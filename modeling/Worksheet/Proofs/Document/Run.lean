import Worksheet.Proofs.Document.Effect
import Worksheet.Proofs.Registry.Scoped
import Worksheet.Proofs.UnitTable.Listing
/-!
# Runs of documents

How a statement of a document ends, and what holds of all that is bound after any statements.
-/

namespace Worksheet

namespace Registry

variable {V : Value → Prop}

theorem Holds.bind {r : Registry} (hr : r.Holds V) {display : String} {binder : Binder}
    (hbinder : ∀ v source, binder = .value v source → V v) : (r.bind display binder).Holds V := by
  intro e he v source hv
  obtain ⟨old, hold, rfl | rfl⟩ | ⟨-, hnew, -⟩ := mem_bind he
  · exact hr e hold v source hv
  · exact hbinder v source hv
  · exact hbinder v source (hnew ▸ hv)

theorem Holds.bindValue {r r' : Registry} (hr : r.Holds V) {t : UnitTable}
    {display source : String} {v : Value} {span : Span} (hv : V v)
    (h : r.bindValue t display v source span = .ok r') : r'.Holds V := by
  obtain ⟨-, rfl⟩ := bindValue_eq_ok h
  exact hr.bind fun v' source' hbinder => by cases hbinder; exact hv

theorem Holds.defineFunction {r : Registry} (hr : r.Holds V) {display source : String}
    {params : List Name} {body : Expr} : (r.defineFunction display params body source).Holds V :=
  hr.bind fun _ _ hbinder => by cases hbinder

end Registry

/-- The part of a statement whose value it binds or shows. -/
def Statement.valued? : Statement → Option Fragment
  | .definition .. => none
  | .assignment _ expr _ => some expr
  | .display expr _ => some expr

namespace Document

/-- A document with the standard units in which nothing is bound. -/
def fresh (settings : Settings) : Document := { table := .standard, settings }

theorem fresh_eq_listed (settings : Settings) : fresh settings = { table := .listed, settings } := by
  rw [fresh, UnitTable.standard_eq_listed]

/-- How a statement can end: with one error and its count, or with the effect of its run. -/
inductive Ends (d : Document) (text : String) (hint : Option String) :
    Outcome × Document → Prop where
  | failed {rendered : String} (e : Error) :
      Ends d text hint (⟨rendered, [.ofError e]⟩, { d with errors := d.errors + 1 })
  | succeeded {parsed : ParsedStatement} {effect : Effect} {rendered : String}
      (hparsed : Statement.parse text = .ok parsed)
      (hrun : d.run parsed.statement (requestedHint parsed.statement.display? hint) = .ok effect) :
      Ends d text hint (⟨rendered, effect.warnings⟩,
        { d with registry := effect.registry, warnings := d.warnings + effect.warnings.length })

theorem process_ends (d : Document) (text : String) (hint : Option String) :
    d.Ends text hint (d.process text hint) := by
  unfold process
  split
  · exact .failed _
  · rename_i parsed hparsed
    dsimp only
    split
    · rename_i effect hrun
      exact .succeeded hparsed hrun
    · exact .failed _

theorem process_table (d : Document) (text : String) (hint : Option String) :
    (d.process text hint).2.table = d.table := by
  have hends := process_ends d text hint
  generalize d.process text hint = result at hends ⊢
  cases hends <;> rfl

theorem process_settings (d : Document) (text : String) (hint : Option String) :
    (d.process text hint).2.settings = d.settings := by
  have hends := process_ends d text hint
  generalize d.process text hint = result at hends ⊢
  cases hends <;> rfl

/-- Processes statements one after the other, each with the hint of its caller. -/
def processEach (d : Document) : List (String × Option String) → List Outcome × Document
  | [] => ([], d)
  | (text, hint) :: steps =>
    let (outcome, next) := d.process text hint
    let (outcomes, last) := next.processEach steps
    (outcome :: outcomes, last)

theorem processAll_eq (d : Document) (texts : List String) :
    d.processAll texts = d.processEach (texts.map fun text => (text, none)) := by
  induction texts generalizing d with
  | nil => rfl
  | cons text texts ih => simp only [processAll, processEach, List.map_cons, ih]

/-- What every statement keeps holds after any statements. -/
theorem processEach_keeps {M : Document → Prop}
    (hstep : ∀ d text hint, M d → M (d.process text hint).2) {d : Document} (hd : M d)
    (steps : List (String × Option String)) : M (d.processEach steps).2 := by
  induction steps generalizing d with
  | nil => exact hd
  | cons step steps ih => exact ih (hstep d step.1 step.2 hd)

theorem processEach_table (d : Document) (steps : List (String × Option String)) :
    (d.processEach steps).2.table = d.table :=
  @processEach_keeps (fun last => last.table = d.table)
    (fun last text hint h => (process_table last text hint).trans h) d rfl steps

/-! ## Invariants of what is bound -/

/-- What is bound after a statement is bound by its run, or as it was before. -/
theorem process_registry {M : Registry → Prop} {d : Document} {text : String} {hint : Option String}
    (hd : M d.registry)
    (hrun : ∀ parsed requested effect, Statement.parse text = .ok parsed →
      d.run parsed.statement requested = .ok effect → M effect.registry) :
    M (d.process text hint).2.registry := by
  have hends := process_ends d text hint
  generalize d.process text hint = result at hends ⊢
  cases hends with
  | failed => exact hd
  | succeeded hparsed h => exact hrun _ _ _ hparsed h

/-- A statement evaluates an expression in a document. -/
def Evaluates (d : Document) (text : String) (e : Expr) : Prop :=
  ∃ parsed f, Statement.parse text = .ok parsed ∧ parsed.statement.valued? = some f ∧
    d.parse f [] = .ok e

section

variable {V : Value → Prop} {d : Document}

/-- Nothing is bound but what a statement has evaluated. -/
theorem run_holds (hd : d.registry.Holds V) {st : Statement} {hint : Option String}
    {effect : Effect}
    (hV : ∀ f e v, st.valued? = some f → d.parse f [] = .ok e →
      (e.eval d.environment).result.1 = .ok v → V v)
    (h : d.run st hint = .ok effect) : effect.registry.Holds V := by
  have hvalue : ∀ f v ws, st.valued? = some f → d.evaluate f = .ok (v, ws) → V v := by
    intro f v ws hf heval
    obtain ⟨e, he, hv, -⟩ := evaluate_eq_ok_iff.1 heval
    exact hV f e v hf he hv
  cases run_eq_ok_iff.1 h with
  | definition => exact hd.defineFunction
  | binding heval hbound => exact hd.bindValue (hvalue _ _ _ rfl heval) hbound
  | shownBinding heval _ hbound => exact hd.bindValue (hvalue _ _ _ rfl heval) hbound
  | display => exact hd

theorem process_holds (hd : d.registry.Holds V) {text : String}
    (hV : ∀ e v, d.Evaluates text e → (e.eval d.environment).result.1 = .ok v → V v)
    (hint : Option String) : (d.process text hint).2.registry.Holds V :=
  process_registry hd fun _ _ _ hparsed =>
    run_holds hd fun f e v hf he => hV e v ⟨_, f, hparsed, hf, he⟩

end

section

variable {P : Quantity → Prop}

theorem environment_invariant {d : Document} (hP : Quantity.Invariant d.table P)
    (hd : d.registry.All P) : d.environment.Invariant P where
  quantity := hP
  bound := hd

theorem evaluate_all {d : Document} (hP : Quantity.Invariant d.table P) (hd : d.registry.All P)
    {f : Fragment} {v : Value} {ws : List Diagnostic} (h : d.evaluate f = .ok (v, ws)) :
    v.All P := by
  obtain ⟨e, -, hv, -⟩ := evaluate_eq_ok_iff.1 h
  exact (e.eval_keeps (environment_invariant hP hd)).2 v hv

theorem process_all {d : Document} (hP : Quantity.Invariant d.table P) (hd : d.registry.All P)
    (text : String) (hint : Option String) : (d.process text hint).2.registry.All P :=
  process_holds hd (fun e v _ => (e.eval_keeps (environment_invariant hP hd)).2 v) hint

/-- What holds of all that is bound goes on to hold, whatever statements are processed. -/
theorem processEach_all {d : Document} (hP : Quantity.Invariant d.table P) (hd : d.registry.All P)
    (steps : List (String × Option String)) : (d.processEach steps).2.registry.All P := by
  let M : Document → Prop := fun d => Quantity.Invariant d.table P ∧ d.registry.All P
  have hstep : ∀ d text hint, M d → M (d.process text hint).2 := by
    intro d text hint hM
    refine ⟨?_, process_all hM.1 hM.2 text hint⟩
    rw [process_table]
    exact hM.1
  exact (processEach_keeps hstep ⟨hP, hd⟩ steps).2

theorem fresh_all (settings : Settings) : (fresh settings).registry.All P := by
  intro e he
  cases he

end

end Document

end Worksheet
