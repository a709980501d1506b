import Worksheet.Proofs.Document.Rerun
/-!
# Values that statements show

The value that a statement shows is the one that it evaluates, given in the unit that it is asked
for or in readable units. How it is shown has no influence on the rest of what the statement does.
-/

namespace Worksheet

/-- The units of all quantities in a value. -/
def Value.units (v : Value) : List UnitProduct := v.quantities.map Quantity.units

namespace Document

variable {d : Document} {st : Statement} {f : Fragment} {v w : Value} {display : Display}
  {own hint : Option String} {span : Span} {shown : String} {more : List Diagnostic}

/-- The value that is shown for one that was evaluated. -/
def chosen? (d : Document) (v : Value) (span : Span) : Display → Option String → Option Value
  | .raw, _ => some v
  | .convert _, none => some (if d.settings.compactPrefixes then d.rendering.compact v else v)
  | .convert _, some hint => (d.applyHint v hint span).toOption.map Prod.fst

/-- The value that a statement shows when it is asked for a unit. -/
def shownBy? (d : Document) (st : Statement) (hint : Option String) : Option Value := do
  let f ← st.valued?
  let display ← st.display?
  let (v, _) ← (d.evaluate f).toOption
  d.chosen? v f.span display hint

/-- The value that is shown when a text is processed. -/
def shown? (d : Document) (text : String) (hint : Option String) : Option Value :=
  match Statement.parse text with
  | .ok p => d.shownBy? p.statement (requestedHint p.statement.display? hint)
  | .error _ => none

/-- The names after a value was evaluated: it may be bound to one. -/
def bound (d : Document) (v : Value) : Statement → Except Error Registry
  | .assignment name expr _ => d.registry.bindValue d.table name.trimmed v expr.text name.span
  | _ => .ok d.registry

/-- A statement that shows its value evaluates it, presents it and binds it, in this order. -/
theorem run_shows (hvalued : st.valued? = some f) (hdisplay : st.display? = some display)
    (hint : Option String) :
    d.run st hint = do
      let (v, ws) ← d.evaluate f
      let (shown, more) ← d.present v display hint f.span
      let registry ← d.bound v st
      return ⟨some shown, ws ++ more, registry⟩ := by
  cases st with
  | definition => cases hvalued
  | assignment name expr shown =>
    cases hvalued
    obtain rfl : shown = some display := hdisplay
    simp only [run, bound, pure_bind]
  | display expr shown =>
    cases hvalued
    cases hdisplay
    rfl

/-- What is presented is the chosen value. -/
theorem chosen?_of_present (h : d.present v display hint span = .ok (shown, more)) :
    ∃ w, d.chosen? v span display hint = some w ∧ shown = d.rendering.value w := by
  cases display with
  | raw =>
    cases h
    exact ⟨v, rfl, rfl⟩
  | convert own =>
    cases hint with
    | none =>
      cases h
      exact ⟨_, rfl, rfl⟩
    | some hint =>
      obtain ⟨⟨w, warnings⟩, happly, h⟩ := bind_eq_ok.1 h
      cases h
      refine ⟨w, ?_, rfl⟩
      simp only [chosen?, happly]
      rfl

theorem shownBy?_eq {ws : List Diagnostic} (hvalued : st.valued? = some f)
    (hdisplay : st.display? = some display) (heval : d.evaluate f = .ok (v, ws))
    (hint : Option String) : d.shownBy? st hint = d.chosen? v f.span display hint := by
  unfold shownBy?
  rw [hvalued, hdisplay]
  simp only [Option.bind_eq_bind, Option.bind_some, heval]
  rfl

/-- A statement that ends well shows a value as its rendering. -/
theorem shown_of_run {effect : Effect} (h : d.run st hint = .ok effect) :
    effect.shown = (d.shownBy? st hint).map d.rendering.value := by
  cases hvalued : st.valued? with
  | none =>
    cases run_eq_ok_iff.1 h with
    | definition => rfl
    | binding => cases hvalued
    | shownBinding => cases hvalued
    | display => cases hvalued
  | some f =>
    cases hdisplay : st.display? with
    | none =>
      cases run_eq_ok_iff.1 h with
      | definition => cases hvalued
      | binding => rfl
      | shownBinding => cases hdisplay
      | display => cases hdisplay
    | some display =>
      rw [run_shows hvalued hdisplay] at h
      obtain ⟨⟨v, ws⟩, heval, h⟩ := bind_eq_ok.1 h
      obtain ⟨⟨shown, more⟩, hpresent, h⟩ := bind_eq_ok.1 h
      obtain ⟨r, -, h⟩ := bind_eq_ok.1 h
      cases h
      obtain ⟨w, hchosen, hshown⟩ := chosen?_of_present hpresent
      rw [shownBy?_eq hvalued hdisplay heval, hchosen, hshown]
      rfl

/-- Where there is no error, the value stands behind the lead of the rendered text. -/
theorem rendered_shown {text : String} (hfine : (d.process text hint).1.hasErrors = false)
    (hshown : d.shown? text hint = some w) :
    ∃ markup, Statement.IsMarkup markup ∧ (d.process text hint).1.rendered =
      String.ofList (Statement.leadOf text ++ ' ' :: (d.rendering.value w).toList ++ markup) := by
  unfold shown? at hshown
  cases hparse : Statement.parse text with
  | error e =>
    rw [hparse] at hshown
    cases hshown
  | ok p =>
    rw [hparse] at hshown
    dsimp only at hshown
    rw [process_ok d hparse] at hfine ⊢
    cases hrun : d.run p.statement (requestedHint p.statement.display? hint) with
    | error e =>
      rw [hrun] at hfine
      cases hfine
    | ok effect =>
      have heffect := shown_of_run hrun
      rw [hshown] at heffect
      rw [conclude_rendered, Statement.leadOf_ok hparse]
      refine ⟨markupText (requestedHint p.statement.display? hint) (.ok effect),
        isMarkup_markupText _ _, ?_⟩
      simp [resultText, heffect]

/-- The value that is shown depends on the unit that the run is told, and not on the one in the
statement. -/
theorem shownBy?_asking (d : Document) (st : Statement) (own hint : Option String) :
    d.shownBy? (st.asking own) hint = d.shownBy? st hint := by
  cases st with
  | definition => rfl
  | assignment name expr display =>
    match display with
    | none => rfl
    | some .raw => rfl
    | some (.convert _) => cases hint <;> rfl
  | display expr display =>
    match display with
    | .raw => rfl
    | .convert _ => cases hint <;> rfl

/-- A text that reads as a statement which asks for another unit shows the value in that. -/
theorem shown?_asking {text : String} {p : ParsedStatement}
    (h : Statement.parse text = .ok (p.asking hint))
    (hown : p.statement.display? = some (.convert own)) :
    d.shown? text none = d.shownBy? p.statement hint := by
  have hdisplay : (p.asking hint).statement.display? = some (.convert hint) := by
    rw [ParsedStatement.asking, Statement.display?_asking, hown]
    rfl
  have hrequested : requestedHint (some (.convert hint)) none = hint := by
    cases hint <;> rfl
  unfold shown?
  rw [h]
  dsimp only
  rw [hdisplay, hrequested, ParsedStatement.asking, shownBy?_asking]

end Document

end Worksheet
