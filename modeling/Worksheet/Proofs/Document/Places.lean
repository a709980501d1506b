import Worksheet.Proofs.Document.Reported
import Worksheet.Proofs.Expr.Reading
import Worksheet.Proofs.Statement.Faults
/-!
# Places of diagnostics

What is reported of a statement points into the statement. Messages about an expression are made in
three coordinate systems: an error of the parser and one of the evaluation point into the text of
the expression, and a message of a called function points into the body of the function, which may
stand in another statement. A call moves the last to itself, and a document moves the others by the
offset of the expression.
-/

namespace Worksheet

open Text

theorem Expr.Stands.marks {scope : Scope} {lo hi : Nat} {e : Expr} {s : Span}
    (h : e.Stands scope lo hi) (hs : e.Marks s) : s.Within lo hi := by
  obtain ⟨n, hn, rfl⟩ := hs
  exact (h.nodes n hn).1

theorem Statement.Within.expression {size : Nat} {st : Statement} (h : st.Within size) :
    st.expression.1.Within size := by
  cases st with
  | definition => exact h.2
  | assignment => exact h.2
  | display => exact h

theorem Statement.Within.valued {size : Nat} {st : Statement} {f : Fragment} (h : st.Within size)
    (hf : st.valued? = some f) : f.Within size := by
  have hexpression := h.expression
  rw [st.expression_of_valued hf] at hexpression
  exact hexpression

/-- A place in the text of a part, or right behind it, is such a place of the statement. -/
theorem Fragment.Within.shift {size : Nat} {f : Fragment} (h : f.Within size) {s : Span}
    (hs : s.Within 0 (byteSize f.text.toList + 1)) : (s.shift f.offset).Within 0 (size + 1) := by
  unfold Fragment.Within at h
  exact (hs.shift f.offset).mono (Nat.zero_le _) (by omega)

namespace Document

variable {d : Document} {size : Nat} {f : Fragment}

/-- What is read lies in the part that it is read from, and what is wrong with the part is wrong at
a place of the statement. -/
theorem parse_places (hf : f.Within size) (params : List Name) :
    Meets (fun e => e.span.Within 0 (size + 1))
      (Expr.Stands (d.registry.scope d.table params) 0 (byteSize f.text.toList))
      (d.parse f params) := by
  have h := Expr.parse_gives (d.registry.scope d.table params) f.text
  unfold parse
  split
  · rename_i e he
    exact .ok (h.result he e rfl)
  · exact .error (hf.span.mono (Nat.le_refl 0) (Nat.le_succ size))
  · rename_i e he
    exact .error (hf.shift (h.fault he).2)

/-- Places of an expression become places of the statement that it belongs to. -/
theorem shift_marks {st : Statement} (hst : st.Within size) (hf : st.valued? = some f) {e : Expr}
    (he : d.parse f [] = .ok e) {s : Span} (hs : e.Marks s) :
    (s.shift f.offset).Within 0 (size + 1) := by
  have hplaces := ((parse_places (hst.valued hf) []).result he).marks hs
  exact (hst.valued hf).shift (hplaces.mono (Nat.le_refl 0) (Nat.le_succ _))

theorem Reported.within {st : Statement} (hst : st.Within size) {code : ErrorCode} {span : Span}
    (h : d.Reported st code span) : span.Within 0 (size + 1) := by
  have hspan : ∀ {f : Fragment}, f.Within size → f.span.Within 0 (size + 1) := fun hf =>
    hf.span.mono (Nat.le_refl 0) (Nat.le_succ size)
  cases h with
  | hidden h =>
    have hmem := (List.of_mem_zip (List.mem_of_find?_eq_some h)).2
    exact (hst.1 span hmem).mono (Nat.le_refl 0) (Nat.le_succ size)
  | @unread _ f params e hf h =>
    have hwithin := hst.expression
    rw [hf] at hwithin
    exact (parse_places hwithin params).fault h
  | @unevaluated _ f e error hf he h =>
    exact shift_marks hst hf he ((e.eval_reports d.environment).outcome.fault h)
  | @warned _ f e w hf he h =>
    exact shift_marks hst hf he ((e.eval_reports d.environment).warnings w h).place
  | unreadHint hf => exact hspan (hst.valued hf)
  | unknownHint hf => exact hspan (hst.valued hf)
  | unmetHint hf => exact hspan (hst.valued hf)
  | reserved => exact hspan hst.1

/-- Whatever a document has processed, all that it reports of a statement begins before it ends, and
ends in the text of the statement or one byte behind it. An evaluation reports at nodes of its own
expression only, however deeply the calls in it are nested and whatever is bound. -/
theorem reports_in_statement (d : Document) (text : String) (hint : Option String) :
    (∀ w ∈ (d.process text hint).1.diagnostics, w.span.start ≤ w.span.stop ∧
        w.span.stop ≤ min 65535 (byteSize text.toList + 1)) ∧
      ∀ (env : Environment) (e : Expr),
        (∀ w ∈ (e.eval env).result.2, e.Marks w.span) ∧
          ∀ error, (e.eval env).result.1 = .error error → e.Marks error.span := by
  constructor
  · intro w hw
    have hwithin : w.span.Within 0 (byteSize text.toList + 1) := by
      have hparse := Statement.parse_meets text
      obtain ⟨e, he, -, hspan⟩ | ⟨parsed, hparsed, h⟩ := d.process_reports text hint w hw
      · rw [hspan]
        exact (hparse.fault he).2.mono (Nat.le_refl 0) (Nat.le_succ _)
      · exact h.within (hparse.result hparsed)
    refine ⟨hwithin.ordered, ?_⟩
    rw [Nat.min_comm]
    exact hwithin.ends
  · intro env e
    have h := e.eval_reports env
    exact ⟨fun w hw => (h.warnings w hw).place, fun error herror => h.outcome.fault herror⟩

end Document

end Worksheet
