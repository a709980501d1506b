import Worksheet.Document.Basic
import Worksheet.Proofs.Evaluation.Invariant
import Worksheet.Proofs.Except
/-!
# Effects of statements

Everything that a statement which does not fail can do, said once for each kind of statement, and
what becomes of the document when it ends.
-/

namespace Worksheet.Document

theorem evaluate_eq_ok_iff {d : Document} {f : Fragment} {v : Value} {ws : List Diagnostic} :
    d.evaluate f = .ok (v, ws) ↔
      ∃ e, d.parse f [] = .ok e ∧ (e.eval d.environment).result.1 = .ok v ∧
        ws = (e.eval d.environment).result.2.map fun w => w.shift f.offset := by
  unfold evaluate
  rw [bind_eq_ok]
  refine exists_congr fun e => and_congr_right fun _ => ?_
  cases hresult : (e.eval d.environment).result.1 with
  | error e' => simp [hresult]
  | ok v' => simp [hresult, eq_comm]

/-- The warning of a value whose units cannot be expressed in others. -/
def mismatchWarning (units target : UnitProduct) (span : Span) : Diagnostic :=
  .warning .conversionMismatch span
    (ErrorCode.conversionMismatch.name ++ ": " ++
      ("can't express " ++ units.text ++ " in " ++ target.text))

/-- A value is shown as a text, with warnings on the way. -/
inductive Presents (d : Document) (v : Value) (span : Span) :
    Display → Option String → String → List Diagnostic → Prop where
  | raw {hint : Option String} : Presents d v span .raw hint (d.rendering.value v) []
  | readable {own : Option String} :
      Presents d v span (.convert own) none
        (d.rendering.value (if d.settings.compactPrefixes then d.rendering.compact v else v)) []
  | converted {own : Option String} {hint : String} {units : UnitProduct} {target : Quantity}
      {shown : Value} (parsed : d.table.parse hint = .ok units)
      (known : d.table.quantity? 1 units = some target)
      (fits : v.mapM (convert target) = .ok shown) :
      Presents d v span (.convert own) (some hint) (d.rendering.value shown) []
  | unmet {own : Option String} {hint : String} {units from' : UnitProduct} {target : Quantity}
      (parsed : d.table.parse hint = .ok units)
      (known : d.table.quantity? 1 units = some target)
      (clash : v.mapM (convert target) = .error from') :
      Presents d v span (.convert own) (some hint) (d.rendering.value v.toBase)
        [mismatchWarning from' target.units span]

theorem present_eq_ok_iff {d : Document} {v : Value} {span : Span} {display : Display}
    {hint : Option String} {text : String} {more : List Diagnostic} :
    d.present v display hint span = .ok (text, more) ↔
      d.Presents v span display hint text more := by
  constructor
  · intro h
    cases display with
    | raw =>
      cases h
      exact .raw
    | convert own =>
      cases hint with
      | none =>
        cases h
        exact .readable
      | some hint =>
        unfold present applyHint at h
        dsimp only at h
        cases hparse : d.table.parse hint with
        | error e => simp [hparse] at h
        | ok units =>
          cases hknown : d.table.quantity? 1 units with
          | none => simp [hparse, hknown] at h
          | some target =>
            cases hconvert : v.mapM (convert target) with
            | ok shown =>
              simp only [hparse, hknown, hconvert, ok_bind, pure_eq_ok] at h
              cases h
              exact .converted hparse hknown hconvert
            | error from' =>
              simp only [hparse, hknown, hconvert, ok_bind, pure_eq_ok] at h
              cases h
              exact .unmet hparse hknown hconvert
  · intro h
    cases h with
    | raw => rfl
    | readable => rfl
    | converted hparse hknown hconvert => simp [present, applyHint, hparse, hknown, hconvert]
    | unmet hparse hknown hconvert =>
      simp [present, applyHint, mismatchWarning, hparse, hknown, hconvert]

/-- A statement runs to an effect: `ws` are the warnings of its evaluation, and `more` those of its
display. -/
inductive Yields (d : Document) (hint : Option String) : Statement → Effect → Prop where
  | definition {name : Fragment} {params : List Name} {spans : List Span} {body : Fragment}
      {e : Expr} (hidden : hiddenParameter? d.table params spans = none)
      (parsed : d.parse body params = .ok e) :
      Yields d hint (.definition name params spans body)
        ⟨none, [], d.registry.defineFunction name.trimmed params e body.text⟩
  | binding {name expr : Fragment} {v : Value} {ws : List Diagnostic} {r : Registry}
      (evaluated : d.evaluate expr = .ok (v, ws))
      (bound : d.registry.bindValue d.table name.trimmed v expr.text name.span = .ok r) :
      Yields d hint (.assignment name expr none) ⟨none, ws, r⟩
  | shownBinding {name expr : Fragment} {display : Display} {v : Value} {ws more : List Diagnostic}
      {text : String} {r : Registry} (evaluated : d.evaluate expr = .ok (v, ws))
      (presented : d.present v display hint expr.span = .ok (text, more))
      (bound : d.registry.bindValue d.table name.trimmed v expr.text name.span = .ok r) :
      Yields d hint (.assignment name expr (some display)) ⟨some text, ws ++ more, r⟩
  | display {expr : Fragment} {display : Display} {v : Value} {ws more : List Diagnostic}
      {text : String} (evaluated : d.evaluate expr = .ok (v, ws))
      (presented : d.present v display hint expr.span = .ok (text, more)) :
      Yields d hint (.display expr display) ⟨some text, ws ++ more, d.registry⟩

theorem run_eq_ok_iff {d : Document} {st : Statement} {hint : Option String} {effect : Effect} :
    d.run st hint = .ok effect ↔ d.Yields hint st effect := by
  constructor
  · intro h
    cases st with
    | definition name params spans body =>
      unfold run at h
      dsimp only at h
      split at h
      · cases h
      · rename_i hhidden
        obtain ⟨e, hparse, h⟩ := bind_eq_ok.1 h
        cases h
        exact .definition hhidden hparse
    | assignment name expr display =>
      obtain ⟨⟨v, ws⟩, heval, h⟩ := bind_eq_ok.1 h
      cases display with
      | none =>
        simp only [pure_eq_ok, ok_bind, List.append_nil] at h
        obtain ⟨r, hbound, h⟩ := bind_eq_ok.1 h
        cases h
        exact .binding heval hbound
      | some display =>
        obtain ⟨⟨text, more⟩, hpresent, h⟩ := bind_eq_ok.1 h
        simp only [pure_eq_ok, ok_bind] at h
        obtain ⟨r, hbound, h⟩ := bind_eq_ok.1 h
        cases h
        exact .shownBinding heval hpresent hbound
    | display expr display =>
      obtain ⟨⟨v, ws⟩, heval, h⟩ := bind_eq_ok.1 h
      obtain ⟨⟨text, more⟩, hpresent, h⟩ := bind_eq_ok.1 h
      cases h
      exact .display heval hpresent
  · intro h
    cases h with
    | definition hhidden hparse => simp [run, hhidden, hparse]
    | binding heval hbound => simp [run, heval, hbound]
    | shownBinding heval hpresent hbound => simp [run, heval, hpresent, hbound]
    | display heval hpresent => simp [run, heval, hpresent]

end Worksheet.Document
