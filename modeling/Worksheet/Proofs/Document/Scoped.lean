import Worksheet.Proofs.Document.Reported
import Worksheet.Proofs.Evaluation.Scoped
import Worksheet.Proofs.Statement.Faults
/-!
# Documents in scope

Whatever statements a document has processed, everything in it refers to what is there, and no
statement fails with an error that only the program could be at fault for.
-/

namespace Worksheet

namespace Document

/-! ## Diagnostics of a statement -/

theorem eval_warnings_external {env : Environment} (e : Expr) :
    ∀ w ∈ (e.eval env).result.2, w.code.External := by
  intro w hw
  obtain ⟨details, hdetails⟩ := ((e.eval_reports env).warnings w hw).kind
  rw [hdetails]
  exact nofun

variable {d : Document}

/-- A part that can be read is a tree in the scope of the document. -/
theorem parse_meets (hd : d.registry.Scoped) (f : Fragment) (params : List Name) :
    Meets (fun e => e.code.External) (Expr.Scoped params.length d.registry.size)
      (d.parse f params) := by
  have h := Expr.parse_meets (hd.scope_within d.table params) f.text
  unfold parse
  split
  · rename_i e he
    exact .ok (h.result he e rfl)
  · exact .error nofun
  · rename_i e he
    exact .error (h.fault he)

theorem Reported.external (hd : d.registry.Scoped) {st : Statement} {code : ErrorCode} {span : Span}
    (h : d.Reported st code span) : code.External := by
  cases h with
  | hidden => exact nofun
  | unread _ h => exact (parse_meets hd _ _).fault h
  | unevaluated _ he h => exact Expr.eval_external hd ((parse_meets hd _ _).result he) _ h
  | warned _ _ h => exact eval_warnings_external _ _ h
  | unreadHint _ h => exact (d.table.parse_readable _).fault h
  | unknownHint => exact nofun
  | unmetHint => exact nofun
  | reserved => exact nofun

/-- A statement that runs binds what is scoped. -/
theorem run_scoped (hd : d.registry.Scoped) {st : Statement} {hint : Option String}
    {effect : Effect} (h : d.run st hint = .ok effect) : effect.registry.Scoped := by
  cases run_eq_ok_iff.1 h with
  | definition _ hparse => exact hd.defineFunction ((parse_meets hd _ _).result hparse)
  | binding _ hbound => exact hd.bindValue hbound
  | shownBinding _ _ hbound => exact hd.bindValue hbound
  | display => exact hd

/-! ## Whole documents -/

/-- A statement keeps what is bound scoped, and reports nothing but what the document is at fault
for. -/
theorem process_scoped (hd : d.registry.Scoped) (text : String) (hint : Option String) :
    (∀ w ∈ (d.process text hint).1.diagnostics, w.code.External) ∧
      (d.process text hint).2.registry.Scoped := by
  constructor
  · intro w hw
    obtain ⟨e, he, hcode, -⟩ | ⟨parsed, -, h⟩ := d.process_reports text hint w hw
    · rw [hcode]
      exact ((Statement.parse_meets text).fault he).1
    · exact h.external hd
  · exact process_registry hd fun _ _ _ _ hrun => run_scoped hd hrun

theorem processEach_scoped (hd : d.registry.Scoped) (steps : List (String × Option String)) :
    (∀ outcome ∈ (d.processEach steps).1, ∀ w ∈ outcome.diagnostics, w.code.External) ∧
      (d.processEach steps).2.registry.Scoped := by
  induction steps generalizing d with
  | nil => exact ⟨nofun, hd⟩
  | cons step steps ih =>
    have hfirst := process_scoped hd step.1 step.2
    have hothers := ih hfirst.2
    exact ⟨List.forall_mem_cons.2 ⟨hfirst.1, hothers.1⟩, hothers.2⟩

/-- No statement of a document fails with an error that a name which is referred to is not there,
whatever is defined, defined again with another number of parameters, or bound to a value after a
function and the other way round. After any statements, an equation with any parameters that can be
read refers only to these and to names that are bound, and so does the body of every function. -/
theorem never_unknownSymbolId (t : UnitTable) (settings : Settings)
    (steps : List (String × Option String)) :
    let d : Document := { table := t, settings }
    let last := (d.processEach steps).2
    (∀ outcome ∈ (d.processEach steps).1, ∀ w ∈ outcome.diagnostics,
        w.code ≠ .unknownSymbolId) ∧
      (∀ params text e, Expr.parse (last.registry.scope t params) text = .ok (some e) →
        e.Scoped params.length last.registry.size) ∧
      ∀ entry ∈ last.registry.entries, entry.id.index < last.registry.size ∧
        ∀ f, entry.binder = .function f → f.body.Scoped f.arity last.registry.size := by
  intro d last
  have hempty : d.registry.Scoped := nofun
  obtain ⟨hdiagnostics, hlast⟩ := processEach_scoped hempty steps
  refine ⟨fun outcome houtcome w hw => ?_, fun params text e he => ?_, fun entry hentry => ?_⟩
  · exact ErrorCode.external_iff.1 (hdiagnostics outcome houtcome w hw)
  · have h := Expr.parse_meets (hlast.scope_within t params) text
    exact h.result he e rfl
  · exact ⟨(hlast entry hentry).place, (hlast entry hentry).body⟩

end Document

end Worksheet
