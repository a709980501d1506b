import Worksheet.Proofs.Document.Run
/-!
# What statements report

Every error and every warning that a statement of a document can report, said once: which part of
the statement it is about, and where it points.
-/

namespace Worksheet

/-- The part of a statement that is read as an expression, and the parameters it is read with. -/
def Statement.expression : Statement → Fragment × List Name
  | .definition _ params _ body => (body, params)
  | .assignment _ expr _ => (expr, [])
  | .display expr _ => (expr, [])

theorem Statement.expression_of_valued {st : Statement} {f : Fragment} (h : st.valued? = some f) :
    st.expression = (f, []) := by
  cases st <;> cases h <;> rfl

namespace Document

/-- A run of the statement may report something with this code at this place. -/
inductive Reported (d : Document) : Statement → ErrorCode → Span → Prop where
  /-- A parameter that would be read as a unit, where it stands among the parameters. -/
  | hidden {name body : Fragment} {params : List Name} {spans : List Span} {param : Name}
      {span : Span} (h : hiddenParameter? d.table params spans = some (param, span)) :
      Reported d (.definition name params spans body) .unitRedefinition span
  /-- An expression that cannot be read. -/
  | unread {st : Statement} {f : Fragment} {params : List Name} {e : Error}
      (hf : st.expression = (f, params)) (h : d.parse f params = .error e) :
      Reported d st e.code e.span
  /-- An expression without a value. Its own places become places in the statement. -/
  | unevaluated {st : Statement} {f : Fragment} {e : Expr} {error : Error}
      (hf : st.valued? = some f) (he : d.parse f [] = .ok e)
      (h : (e.eval d.environment).result.1 = .error error) :
      Reported d st error.code (error.span.shift f.offset)
  | warned {st : Statement} {f : Fragment} {e : Expr} {w : Diagnostic}
      (hf : st.valued? = some f) (he : d.parse f [] = .ok e)
      (h : w ∈ (e.eval d.environment).result.2) : Reported d st w.code (w.span.shift f.offset)
  /-- A hint that is no unit. The whole expression is what it was meant for. -/
  | unreadHint {st : Statement} {f : Fragment} {hint : String} {e : SourceError}
      (hf : st.valued? = some f) (h : d.table.parse hint = .error e) : Reported d st e.code f.span
  | unknownHint {st : Statement} {f : Fragment} (hf : st.valued? = some f) :
      Reported d st .unknownUnit f.span
  | unmetHint {st : Statement} {f : Fragment} (hf : st.valued? = some f) :
      Reported d st .conversionMismatch f.span
  /-- A name that is kept for a unit. -/
  | reserved {name expr : Fragment} {display : Option Display} :
      Reported d (.assignment name expr display) .unitRedefinition name.span

/-- All that the statement may report is reported as expected, and a result has the property `Q`. -/
abbrev Reports {α : Type} (d : Document) (st : Statement) (Q : α → Prop) (r : Except Error α) :
    Prop :=
  Meets (fun e => d.Reported st e.code e.span) Q r

variable {d : Document} {st : Statement} {f : Fragment}

theorem evaluate_reports (hf : st.valued? = some f) :
    d.Reports st (fun result => ∀ w ∈ result.2, d.Reported st w.code w.span) (d.evaluate f) := by
  unfold evaluate
  cases he : d.parse f [] with
  | error e => exact .error (.unread (Statement.expression_of_valued hf) he)
  | ok e =>
    rw [ok_bind]
    cases hresult : (e.eval d.environment).result with
    | mk result warnings =>
      have hwarnings : ∀ w ∈ warnings, w ∈ (e.eval d.environment).result.2 := by
        rw [hresult]
        exact fun w hw => hw
      cases result with
      | error error => exact .error (.unevaluated hf he (congrArg Prod.fst hresult))
      | ok v =>
        refine .ok fun w hw => ?_
        obtain ⟨w', hw', rfl⟩ := List.mem_map.1 hw
        exact .warned hf he (hwarnings w' hw')

theorem present_reports (hf : st.valued? = some f) (v : Value) (display : Display)
    (hint : Option String) :
    d.Reports st (fun result => ∀ w ∈ result.2, d.Reported st w.code w.span)
      (d.present v display hint f.span) := by
  unfold present
  split
  · exact .ok nofun
  · rename_i hint
    refine Meets.bind (R := fun result => ∀ w ∈ result.2, d.Reported st w.code w.span) ?_
      fun _ h => .ok h
    unfold applyHint
    cases hunits : d.table.parse hint with
    | error e => exact .error (.unreadHint hf hunits)
    | ok units =>
      dsimp only [ok_bind]
      split
      · exact .error (.unknownHint hf)
      · split
        · exact .ok nofun
        · exact .ok (List.forall_mem_singleton.2 (.unmetHint hf))
  · exact .ok nofun

theorem bindValue_reports (name expr : Fragment) (display : Option Display) (v : Value) :
    d.Reports (.assignment name expr display) (fun _ => True)
      (d.registry.bindValue d.table name.trimmed v expr.text name.span) := by
  unfold Registry.bindValue
  dsimp only
  split
  · exact .error .reserved
  · exact .ok trivial

/-- A statement reports nothing else. -/
theorem run_reports (d : Document) (st : Statement) (hint : Option String) :
    d.Reports st (fun effect => ∀ w ∈ effect.warnings, d.Reported st w.code w.span)
      (d.run st hint) := by
  cases st with
  | definition name params spans body =>
    unfold run
    dsimp only
    split
    · rename_i param span hparam
      exact .error (.hidden hparam)
    · cases he : d.parse body params with
      | error e => exact .error (.unread rfl he)
      | ok e => exact .ok nofun
  | assignment name expr display =>
    have hvalued : (Statement.assignment name expr display).valued? = some expr := rfl
    apply (evaluate_reports hvalued).bind
    intro ⟨v, ws⟩ hws
    have hbind := bindValue_reports (d := d) name expr display v
    cases display with
    | none =>
      simp only [pure_eq_ok, ok_bind]
      apply hbind.bind
      intro r _
      exact .ok (List.forall_mem_append.2 ⟨hws, nofun⟩)
    | some display =>
      apply (present_reports hvalued v display hint).bind
      intro ⟨text, more⟩ hmore
      simp only [pure_eq_ok, ok_bind]
      apply hbind.bind
      intro r _
      exact .ok (List.forall_mem_append.2 ⟨hws, hmore⟩)
  | display expr display =>
    have hvalued : (Statement.display expr display).valued? = some expr := rfl
    apply (evaluate_reports hvalued).bind
    intro ⟨v, ws⟩ hws
    apply (present_reports hvalued v display hint).bind
    intro ⟨text, more⟩ hmore
    exact .ok (List.forall_mem_append.2 ⟨hws, hmore⟩)

/-- What is reported of a text is what is wrong with it as a statement, or what its run reports. -/
theorem process_reports (d : Document) (text : String) (hint : Option String) :
    ∀ w ∈ (d.process text hint).1.diagnostics,
      (∃ e, Statement.parse text = .error e ∧ w.code = e.code ∧ w.span = e.span) ∨
        ∃ parsed, Statement.parse text = .ok parsed ∧
          d.Reported parsed.statement w.code w.span := by
  unfold process
  cases hparsed : Statement.parse text with
  | error e => exact List.forall_mem_singleton.2 (.inl ⟨e, rfl, rfl, rfl⟩)
  | ok parsed =>
    have hrun := d.run_reports parsed.statement (requestedHint parsed.statement.display? hint)
    dsimp only
    cases heffect : d.run parsed.statement (requestedHint parsed.statement.display? hint) with
    | ok effect => exact fun w hw => .inr ⟨parsed, rfl, hrun.result heffect w hw⟩
    | error e => exact List.forall_mem_singleton.2 (.inr ⟨parsed, rfl, hrun.fault heffect⟩)

end Document

end Worksheet
