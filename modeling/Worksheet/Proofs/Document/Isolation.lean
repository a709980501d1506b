import Worksheet.Proofs.Document.Run
/-!
# Failure isolation

A statement that fails leaves nothing behind but its one diagnostic and its count. So statements
that fail, and those that only show a value, can be taken out of a document, and the others come
out as before.
-/

namespace Worksheet

namespace Document

/-! ## Warnings of a statement that does not fail -/

/-- Nothing that an evaluation collects is an error. -/
theorem eval_warnings {env : Environment} (e : Expr) :
    ∀ w ∈ (e.eval env).result.2, w.isError = false := by
  intro w hw
  obtain ⟨details, hdetails⟩ := ((e.eval_reports env).warnings w hw).kind
  rw [hdetails]
  rfl

theorem evaluate_warnings {d : Document} {f : Fragment} {v : Value} {ws : List Diagnostic}
    (h : d.evaluate f = .ok (v, ws)) : ∀ w ∈ ws, w.isError = false := by
  obtain ⟨e, -, -, rfl⟩ := evaluate_eq_ok_iff.1 h
  intro w hw
  obtain ⟨w', hw', rfl⟩ := List.mem_map.1 hw
  exact eval_warnings e w' hw'

theorem present_warnings {d : Document} {v : Value} {span : Span} {display : Display}
    {hint : Option String} {text : String} {more : List Diagnostic}
    (h : d.present v display hint span = .ok (text, more)) : ∀ w ∈ more, w.isError = false := by
  cases present_eq_ok_iff.1 h <;> simp [mismatchWarning, Diagnostic.warning, Diagnostic.isError]

theorem run_warnings {d : Document} {st : Statement} {hint : Option String} {effect : Effect}
    (h : d.run st hint = .ok effect) : ∀ w ∈ effect.warnings, w.isError = false := by
  cases run_eq_ok_iff.1 h with
  | definition => simp
  | binding heval => exact evaluate_warnings heval
  | shownBinding heval hpresent =>
    exact List.forall_mem_append.2 ⟨evaluate_warnings heval, present_warnings hpresent⟩
  | display heval hpresent =>
    exact List.forall_mem_append.2 ⟨evaluate_warnings heval, present_warnings hpresent⟩

/-! ## One statement -/

/-- After a statement with an error only the count of errors has changed, and the error is all that
is reported. After any other one the warnings are counted. -/
def Isolated (d : Document) (outcome : Outcome) (next : Document) : Prop :=
  if outcome.hasErrors then
    (∃ e : Diagnostic, e.isError ∧ outcome.diagnostics = [e]) ∧ next.registry = d.registry ∧
      next.errors = d.errors + 1 ∧ next.warnings = d.warnings
  else
    next.errors = d.errors ∧ next.warnings = d.warnings + outcome.diagnostics.length

theorem process_isolated (d : Document) (text : String) (hint : Option String) :
    d.Isolated (d.process text hint).1 (d.process text hint).2 := by
  have hends := process_ends d text hint
  generalize d.process text hint = result at hends ⊢
  cases hends with
  | failed e =>
    have herror : (Diagnostic.ofError e).isError = true := rfl
    simp [Isolated, Outcome.hasErrors, herror]
  | @succeeded parsed effect rendered hparsed hrun =>
    have hsilent : effect.warnings.any Diagnostic.isError = false := by
      simpa using run_warnings hrun
    unfold Isolated Outcome.hasErrors
    rw [hsilent, if_neg Bool.false_ne_true]
    exact ⟨rfl, rfl⟩

theorem evaluate_recount (d : Document) (m n : Nat) :
    { d with errors := m, warnings := n }.evaluate = d.evaluate := by
  have hparse : { d with errors := m, warnings := n }.parse = d.parse := rfl
  have henv : { d with errors := m, warnings := n }.environment = d.environment := rfl
  funext f
  unfold evaluate
  rw [hparse, henv]

theorem applyHint_recount (d : Document) (m n : Nat) :
    { d with errors := m, warnings := n }.applyHint = d.applyHint := by
  funext v hint span
  unfold applyHint
  with_reducible rfl

theorem present_recount (d : Document) (m n : Nat) :
    { d with errors := m, warnings := n }.present = d.present := by
  have hrendering : { d with errors := m, warnings := n }.rendering = d.rendering := rfl
  funext v display hint span
  unfold present
  rw [hrendering, applyHint_recount]

theorem run_recount (d : Document) (m n : Nat) :
    { d with errors := m, warnings := n }.run = d.run := by
  have hparse : { d with errors := m, warnings := n }.parse = d.parse := rfl
  funext st hint
  unfold run
  rw [hparse, evaluate_recount, present_recount]

/-- How a statement ends does not depend on what has been counted before. -/
theorem process_recount (d : Document) (m n : Nat) (text : String) (hint : Option String) :
    ∃ m' n', { d with errors := m, warnings := n }.process text hint =
      ((d.process text hint).1, { (d.process text hint).2 with errors := m', warnings := n' }) := by
  unfold process
  cases Statement.parse text with
  | error e => exact ⟨m + 1, n, rfl⟩
  | ok parsed =>
    simp only [run_recount]
    cases d.run parsed.statement (requestedHint parsed.statement.display? hint) with
    | ok effect => exact ⟨m, n + effect.warnings.length, rfl⟩
    | error e => exact ⟨m + 1, n, rfl⟩

/-! ## Whole documents -/

/-- A statement that shows a value and binds nothing. -/
def onlyShows (text : String) : Bool :=
  match Statement.parse text with
  | .ok ⟨.display .., _⟩ => true
  | _ => false

/-- Marks the statements that do not fail and do not only show a value. -/
def marks (d : Document) : List (String × Option String) → List Bool
  | [] => []
  | (text, hint) :: steps =>
    let (outcome, next) := d.process text hint
    (!outcome.hasErrors && !onlyShows text) :: next.marks steps

/-- What stands at the places with a mark. -/
def select : List Bool → List α → List α
  | mark :: marks, a :: as => if mark then a :: select marks as else select marks as
  | _, _ => []

/-- A statement without a mark leaves the bindings as they are. -/
theorem process_of_unmarked (d : Document) (text : String) (hint : Option String)
    (h : (!(d.process text hint).1.hasErrors && !onlyShows text) = false) :
    ∃ m n, (d.process text hint).2 = { d with errors := m, warnings := n } := by
  have hends := process_ends d text hint
  generalize d.process text hint = result at hends h ⊢
  cases hends with
  | failed e => exact ⟨d.errors + 1, d.warnings, rfl⟩
  | @succeeded parsed effect rendered hparsed hrun =>
    have hsilent : (Outcome.mk rendered effect.warnings).hasErrors = false := by
      simpa [Outcome.hasErrors] using run_warnings hrun
    have hshows : onlyShows text = true := by simpa [hsilent] using h
    obtain ⟨st, lead⟩ := parsed
    cases st with
    | definition name params spans body => simp [onlyShows, hparsed] at hshows
    | assignment name expr display => simp [onlyShows, hparsed] at hshows
    | display expr display =>
      refine ⟨d.errors, d.warnings + effect.warnings.length, ?_⟩
      cases run_eq_ok_iff.1 hrun with
      | display heval hpresent => rfl

theorem processEach_select (d : Document) (steps : List (String × Option String)) (m n : Nat) :
    ∃ m' n', { d with errors := m, warnings := n }.processEach (select (d.marks steps) steps) =
      (select (d.marks steps) (d.processEach steps).1,
        { (d.processEach steps).2 with errors := m', warnings := n' }) := by
  induction steps generalizing d m n with
  | nil => exact ⟨m, n, rfl⟩
  | cons step steps ih =>
    obtain ⟨text, hint⟩ := step
    simp only [marks, processEach, select]
    cases hmark : (!(d.process text hint).1.hasErrors && !onlyShows text) with
    | false =>
      obtain ⟨m', n', hnext⟩ := process_of_unmarked d text hint hmark
      obtain ⟨m'', n'', hrest⟩ := ih (d.process text hint).2 m n
      refine ⟨m'', n'', ?_⟩
      rw [hnext] at hrest ⊢
      exact hrest
    | true =>
      obtain ⟨m', n', hstep⟩ := process_recount d m n text hint
      obtain ⟨m'', n'', hrest⟩ := ih (d.process text hint).2 m' n'
      refine ⟨m'', n'', ?_⟩
      simp only [if_true, processEach, hstep, hrest]

/-- Every statement is isolated, whatever happened before it. Without the statements that fail or
only show a value all others come out as they did, and the same names are bound at the end. -/
theorem failures_isolated (d : Document) (steps : List (String × Option String)) :
    (∀ text hint,
      let now := (d.processEach steps).2
      now.Isolated (now.process text hint).1 (now.process text hint).2) ∧
    (d.processEach (select (d.marks steps) steps)).1 =
      select (d.marks steps) (d.processEach steps).1 ∧
    (d.processEach (select (d.marks steps) steps)).2.registry =
      (d.processEach steps).2.registry := by
  obtain ⟨m, n, h⟩ := processEach_select d steps d.errors d.warnings
  refine ⟨fun text hint => process_isolated _ text hint, ?_, ?_⟩
  · exact congrArg Prod.fst h
  · exact congrArg (fun result => result.2.registry) h

end Document

end Worksheet
