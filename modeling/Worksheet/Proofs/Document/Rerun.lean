import Worksheet.Proofs.Document.Rendered
/-!
# Running a document again

A rendered document is cleared of its results and processed again. All of it comes out as before,
but for one thing: a value may be shown differently in the unit that its own text asks for.
-/

namespace Worksheet.Document

open Statement

variable {d : Document} {bases : String → Prop} {text : String} {p : ParsedStatement}
  {own hint : Option String}

/-! ## Asking for another unit -/

theorem present_asking (d : Document) (v : Value) (display : Display) (own hint : Option String)
    (span : Span) : d.present v (display.asking own) hint span = d.present v display hint span := by
  cases display <;> cases hint <;> rfl

/-- The run of a statement is told the unit, and does not look for it in the statement. -/
theorem run_asking (d : Document) (st : Statement) (own hint : Option String) :
    d.run (st.asking own) hint = d.run st hint := by
  cases st with
  | definition => rfl
  | assignment name expr display =>
      cases display with
      | none => rfl
      | some display => simp only [Statement.asking, Option.map_some, run, present_asking]
  | display expr display => simp only [Statement.asking, run, present_asking]

theorem process_asking (d : Document) (h : Statement.parse text = .ok (p.asking hint))
    (hown : p.statement.display? = some (.convert own)) :
    d.process text none = d.conclude p.lead hint (d.run p.statement hint) := by
  have hdisplay : (p.asking hint).statement.display? = some (.convert hint) := by
    rw [ParsedStatement.asking, display?_asking, hown]
    rfl
  have hrequested : requestedHint (some (.convert hint)) none = hint := by
    cases hint <;> rfl
  rw [process_ok d h, hdisplay, hrequested, ParsedStatement.asking, run_asking]

/-! ## What the unit asked for changes -/

/-- A hint adds no warning, or the one that the value has another dimension. -/
def AddsWarning (hint : Option String) (more : List Diagnostic) : Prop :=
  more = [] ∨ hint ≠ none ∧ ∃ w, more = [w] ∧ w.code = .conversionMismatch

theorem Presents.addsWarning {v : Value} {span : Span} {display : Display} {shown : String}
    {more : List Diagnostic} (h : d.Presents v span display hint shown more) :
    AddsWarning hint more := by
  cases h with
  | raw => exact .inl rfl
  | readable => exact .inl rfl
  | converted => exact .inl rfl
  | unmet => exact .inr ⟨Option.some_ne_none _, _, rfl, rfl⟩

/-- Asked for two units, a statement does the same up to what it shows and the warning of it. -/
theorem yields_agree {st : Statement} {effect effect' : Effect} (h : d.Yields own st effect)
    (h' : d.Yields hint st effect') :
    effect'.registry = effect.registry ∧ ∃ ws more more', effect.warnings = ws ++ more ∧
      effect'.warnings = ws ++ more' ∧ AddsWarning own more ∧ AddsWarning hint more' := by
  cases h with
  | definition _ parsed =>
      cases h' with
      | definition _ parsed' =>
          rw [parsed] at parsed'
          cases parsed'
          exact ⟨rfl, [], [], [], rfl, rfl, .inl rfl, .inl rfl⟩
  | binding evaluated bound =>
      cases h' with
      | binding evaluated' bound' =>
          rw [evaluated] at evaluated'
          cases evaluated'
          rw [bound] at bound'
          cases bound'
          exact ⟨rfl, _, [], [], (List.append_nil _).symm, (List.append_nil _).symm, .inl rfl,
            .inl rfl⟩
  | shownBinding evaluated presented bound =>
      cases h' with
      | shownBinding evaluated' presented' bound' =>
          rw [evaluated] at evaluated'
          cases evaluated'
          rw [bound] at bound'
          cases bound'
          exact ⟨rfl, _, _, _, rfl, rfl, (present_eq_ok_iff.1 presented).addsWarning,
            (present_eq_ok_iff.1 presented').addsWarning⟩
  | display evaluated presented =>
      cases h' with
      | display evaluated' presented' =>
          rw [evaluated] at evaluated'
          cases evaluated'
          exact ⟨rfl, _, _, _, rfl, rfl, (present_eq_ok_iff.1 presented).addsWarning,
            (present_eq_ok_iff.1 presented').addsWarning⟩

theorem resultText_injective {effect effect' : Effect}
    (h : resultText (.ok effect) = resultText (.ok effect')) : effect.shown = effect'.shown := by
  unfold resultText at h
  rw [String.toList_inj] at h
  cases hshown : effect.shown with
  | none =>
      cases hshown' : effect'.shown with
      | none => rfl
      | some shown' => simp [hshown, hshown', ← String.toList_inj] at h
  | some shown =>
      cases hshown' : effect'.shown with
      | none => simp [hshown, hshown', ← String.toList_inj] at h
      | some shown' =>
          rw [hshown, hshown'] at h
          simpa [← String.toList_inj] using h

theorem render_ne_nil (severity : Severity) (message : String) (hint : Option String) :
    (Markup.render severity message hint).toList ≠ [] := by
  rw [Markup.render_toList]
  exact List.append_ne_nil_of_left_ne_nil Markup.start_ne_nil _

theorem markupText_unmet {effect : Effect} (h : effect.unmet = true) (hint : Option String) :
    ∃ message, markupText hint (.ok effect) =
      (Markup.render .warning message hint).toList := by
  unfold markupText
  dsimp only
  split
  · rename_i hnil
    rw [Effect.unmet, hnil] at h
    cases h
  · rw [h, if_pos rfl]
    exact ⟨_, rfl⟩

theorem markupText_met {effect : Effect} (h : effect.unmet = false) (hint : Option String) :
    markupText hint (.ok effect) = [] ∨ ∃ message, markupText hint (.ok effect) =
      (Markup.render .warning message none).toList := by
  unfold markupText
  dsimp only
  split
  · exact .inl rfl
  · rw [h]
    exact .inr ⟨_, rfl⟩

/-- A failure and a success do not look alike. -/
theorem markupText_ok_ne {effect : Effect} {message : String} :
    markupText hint (.ok effect) ≠ (Markup.render .error message own).toList := by
  intro h
  cases hunmet : effect.unmet with
  | true =>
      obtain ⟨message', hmarkup⟩ := markupText_unmet hunmet hint
      rw [hmarkup, String.toList_inj] at h
      cases (Markup.render_injective h).1
  | false =>
      rcases markupText_met hunmet hint with hmarkup | ⟨message', hmarkup⟩
      · rw [hmarkup] at h
        exact render_ne_nil _ _ _ h.symm
      · rw [hmarkup, String.toList_inj] at h
        cases (Markup.render_injective h).1

/-- A unit that could not be given is kept in the markup, and no other is. -/
theorem unmet_eq_of_markup {effect effect' : Effect} (hunmet : effect.unmet = true)
    (h : markupText hint (.ok effect') = markupText own (.ok effect)) :
    hint = own ∨ own = none ∧ effect'.unmet = false := by
  obtain ⟨message, hmarkup⟩ := markupText_unmet hunmet own
  rw [hmarkup] at h
  cases hunmet' : effect'.unmet with
  | true =>
      obtain ⟨message', hmarkup'⟩ := markupText_unmet hunmet' hint
      rw [hmarkup', String.toList_inj] at h
      exact .inl (Markup.render_injective h).2
  | false =>
      rcases markupText_met hunmet' hint with hmarkup' | ⟨message', hmarkup'⟩
      · rw [hmarkup'] at h
        exact absurd h.symm (render_ne_nil _ _ _)
      · rw [hmarkup', String.toList_inj] at h
        exact .inr ⟨(Markup.render_injective h).2.symm, rfl⟩

theorem AddsWarning.nil_of_met {ws more : List Diagnostic} (h : AddsWarning hint more)
    {effect : Effect} (hwarnings : effect.warnings = ws ++ more) (hmet : effect.unmet = false) :
    more = [] := by
  rcases h with hnil | ⟨-, w, rfl, hw⟩
  · exact hnil
  · rw [Effect.unmet, hwarnings, List.any_append] at hmet
    simp [hw] at hmet

/-- Without a unit asked for, a value could only fail to be given in one while it was evaluated, and
then it fails whatever unit is asked for. -/
theorem AddsWarning.unmet_of_none {ws more more' : List Diagnostic} (h : AddsWarning none more)
    {effect effect' : Effect} (hwarnings : effect.warnings = ws ++ more)
    (hwarnings' : effect'.warnings = ws ++ more') (hunmet : effect.unmet = true) :
    effect'.unmet = true := by
  rcases h with rfl | ⟨hnone, -⟩
  · rw [List.append_nil] at hwarnings
    rw [Effect.unmet, hwarnings] at hunmet
    rw [Effect.unmet, hwarnings', List.any_append, hunmet, Bool.true_or]
  · exact absurd rfl hnone

/-- A statement that is rendered alike when it is asked for two units is asked for the same, or has
the same effect without a unit that could not be given. -/
theorem run_eq_of_rendered {st : Statement}
    (hresult : resultText (d.run st hint) = resultText (d.run st own))
    (hmarkup : markupText hint (d.run st hint) = markupText own (d.run st own)) :
    hint = own ∨ ∃ effect, d.run st own = .ok effect ∧ effect.unmet = false ∧
      d.run st hint = .ok effect := by
  cases hrun : d.run st own with
  | error e =>
      rw [hrun] at hmarkup
      cases hrun' : d.run st hint with
      | error e' =>
          rw [hrun'] at hmarkup
          exact .inl (Markup.render_injective (String.toList_inj.1 hmarkup)).2
      | ok effect' =>
          rw [hrun'] at hmarkup
          exact absurd hmarkup markupText_ok_ne
  | ok effect =>
      rw [hrun] at hmarkup hresult
      cases hrun' : d.run st hint with
      | error e' =>
          rw [hrun'] at hmarkup
          exact absurd hmarkup.symm markupText_ok_ne
      | ok effect' =>
          rw [hrun'] at hmarkup hresult
          obtain ⟨hregistry, ws, more, more', hws, hws', hadds, hadds'⟩ :=
            yields_agree (run_eq_ok_iff.1 hrun) (run_eq_ok_iff.1 hrun')
          cases hunmet : effect.unmet with
          | true =>
              rcases unmet_eq_of_markup hunmet hmarkup with heq | ⟨rfl, hmet'⟩
              · exact .inl heq
              · rw [hadds.unmet_of_none hws hws' hunmet] at hmet'
                cases hmet'
          | false =>
              cases hunmet' : effect'.unmet with
              | true =>
                  rcases unmet_eq_of_markup hunmet' hmarkup.symm with heq | ⟨rfl, -⟩
                  · exact .inl heq.symm
                  · rw [hadds'.unmet_of_none hws' hws hunmet'] at hunmet
                    cases hunmet
              | false =>
                  have hmore := hadds.nil_of_met hws hunmet
                  have hmore' := hadds'.nil_of_met hws' hunmet'
                  have hwarnings : effect'.warnings = effect.warnings := by
                    rw [hws, hws', hmore, hmore']
                  have hshown := resultText_injective hresult
                  refine .inr ⟨effect, rfl, hunmet, ?_⟩
                  obtain ⟨shown', warnings', registry'⟩ := effect'
                  cases hregistry
                  cases hwarnings
                  cases hshown
                  rfl

/-! ## One statement -/

/-- The statement shows its value again as it did: it is asked for the same unit as before, or the
unit that its text asks for now leaves what it does and shows the same. -/
def SettlesAt (d : Document) (text : String) : Prop :=
  ∀ p own, Statement.parse text = .ok p → p.statement.display? = some (.convert own) →
    ∃ hint, Statement.parse (clear (d.process text none).1.rendered) = .ok (p.asking hint) ∧
      (hint = own ∨ ∃ effect, d.run p.statement own = .ok effect ∧ effect.unmet = false ∧
        d.run p.statement hint = .ok effect)

theorem process_clear_of_settlesAt (hd : d.Ready bases) (h : d.SettlesAt text) :
    d.process (clear (d.process text none).1.rendered) none = d.process text none := by
  obtain ⟨result, markup, hresult, hmarkup, hrendered⟩ := hd.rendered text none
  cases hparse : Statement.parse text with
  | error e =>
      obtain ⟨hcleared, hlead⟩ := hresult.clear_error hmarkup hparse
      rw [← hrendered] at hcleared hlead
      rw [process_error d hcleared, hlead, process_error d hparse]
  | ok p =>
      by_cases hconvert : ∃ own, p.statement.display? = some (.convert own)
      · obtain ⟨own, hown⟩ := hconvert
        obtain ⟨hint, hcleared, hsame⟩ := h p own hparse hown
        have hself : Statement.parse text = .ok (p.asking own) := by
          rw [hparse, ParsedStatement.asking_self hown]
        rw [process_asking d hcleared hown, process_asking d hself hown]
        rcases hsame with rfl | ⟨effect, hrun, hmet, hrun'⟩
        · rfl
        · rw [hrun, hrun', conclude_met hmet d p.lead hint own]
      · rcases hresult.parse_clear hmarkup hparse with ⟨hint, hcleared⟩ | ⟨hconvert', -⟩
        · rw [← hrendered, ParsedStatement.asking_of_silent
            fun own hown => hconvert ⟨own, hown⟩] at hcleared
          rw [process_ok d hcleared, process_ok d hparse]
        · exact absurd hconvert' hconvert

/-- The parts of a rendered statement can be told from each other. -/
theorem parts_eq_of_rendered (hd : d.Ready bases) (hparse : Statement.parse text = .ok p)
    (h : (d.conclude p.lead hint (d.run p.statement hint)).1.rendered =
      (d.conclude p.lead own (d.run p.statement own)).1.rendered) :
    resultText (d.run p.statement hint) = resultText (d.run p.statement own) ∧
      markupText hint (d.run p.statement hint) = markupText own (d.run p.statement own) := by
  rw [conclude_rendered, conclude_rendered, ← String.toList_inj, String.toList_ofList,
    String.toList_ofList, ← leadOf_ok hparse] at h
  have hsplit := congrArg (fun cs => (Markup.split cs).1) h
  rw [(hd.isResult hparse hint).split (isMarkup_markupText _ _),
    (hd.isResult hparse own).split (isMarkup_markupText _ _), List.append_cancel_left_eq] at hsplit
  rw [hsplit, List.append_cancel_left_eq] at h
  exact ⟨hsplit, h⟩

theorem settlesAt_of_rendered (hd : d.Ready bases)
    (h : (d.process (clear (d.process text none).1.rendered) none).1.rendered =
      (d.process text none).1.rendered) : d.SettlesAt text := by
  intro p own hparse hown
  obtain ⟨result, markup, hresult, hmarkup, hrendered⟩ := hd.rendered text none
  have hcleared := hresult.parse_clear hmarkup hparse
  rw [← hrendered] at hcleared
  rcases hcleared with ⟨hint, hcleared⟩ | ⟨-, e, hcleared⟩
  · refine ⟨hint, hcleared, ?_⟩
    have hself : Statement.parse text = .ok (p.asking own) := by
      rw [hparse, ParsedStatement.asking_self hown]
    rw [process_asking d hcleared hown, process_asking d hself hown] at h
    obtain ⟨hresults, hmarkups⟩ := parts_eq_of_rendered hd hparse h
    exact run_eq_of_rendered hresults hmarkups
  · -- a text that cannot be read stays so with its error behind it
    obtain ⟨result', markup', hresult', hmarkup', hrendered'⟩ :=
      hd.rendered (clear (d.process text none).1.rendered) none
    have hread := hresult.parse hmarkup
    have hread' := hresult'.parse hmarkup'
    rw [hcleared, ← hrendered', h] at hread'
    rw [hparse, ← hrendered, hread'.error_left] at hread
    cases hread

/-! ## A whole document -/

/-- Every statement settles, each in the document as it is after those before it. -/
def Settles (d : Document) : List String → Prop
  | [] => True
  | text :: texts => d.SettlesAt text ∧ (d.process text none).2.Settles texts

/-- The outcomes of statements that are cleared of the results of earlier outcomes. -/
def rerun (d : Document) (outcomes : List Outcome) : List Outcome × Document :=
  d.processAll (outcomes.map fun outcome => clear outcome.rendered)

theorem rerun_of_settles (hd : d.Ready bases) {texts : List String} (h : d.Settles texts) :
    d.rerun (d.processAll texts).1 = d.processAll texts := by
  induction texts generalizing d with
  | nil => rfl
  | cons text texts ih =>
      obtain ⟨hhead, htail⟩ := h
      have hprocess := process_clear_of_settlesAt hd hhead
      have hrest := ih (hd.process text none) htail
      unfold rerun at hrest ⊢
      simp only [processAll, List.map_cons, hprocess, hrest]

theorem settles_of_rendered (hd : d.Ready bases) {texts : List String}
    (h : (d.rerun (d.processAll texts).1).1.map Outcome.rendered =
      (d.processAll texts).1.map Outcome.rendered) : d.Settles texts := by
  induction texts generalizing d with
  | nil => trivial
  | cons text texts ih =>
      unfold rerun at h
      simp only [processAll, List.map_cons, List.cons.injEq] at h
      obtain ⟨hhead, htail⟩ := h
      have hsettles := settlesAt_of_rendered hd hhead
      rw [process_clear_of_settlesAt hd hsettles] at htail
      exact ⟨hsettles, ih (hd.process text none) htail⟩

/-- A document that is rendered, cleared of its results and run again is rendered as before, with
the same counts, exactly if every value that is shown in a unit settles; then nothing at all has
changed. -/
theorem rerun_iff_settles (settings : Settings) (texts : List String) :
    let first := (fresh settings).processAll texts
    let second := (fresh settings).rerun first.1
    (second.1.map Outcome.rendered = first.1.map Outcome.rendered ∧
        second.2.errors = first.2.errors ∧ second.2.warnings = first.2.warnings ↔
      (fresh settings).Settles texts) ∧
    ((fresh settings).Settles texts → second = first) := by
  intro first second
  have hready := ready_fresh settings
  have hsame : (fresh settings).Settles texts → second = first := rerun_of_settles hready
  refine ⟨⟨fun h => settles_of_rendered hready h.1, fun h => ?_⟩, hsame⟩
  rw [hsame h]
  exact ⟨rfl, rfl, rfl⟩

/-- A percentage shown as the number that it is. -/
def percentage : String := "50\\,\\mathrm\x7b\\%\x7d == \\mathrm\x7bdimensionless\x7d"

set_option maxRecDepth 100000 in
/-- The number has no unit that the text could keep, and the next run shows a percentage. -/
theorem rerun_percentage_ne :
    ((fresh {}).rerun ((fresh {}).processAll [percentage]).1).1.map Outcome.rendered ≠
      ((fresh {}).processAll [percentage]).1.map Outcome.rendered := by
  rw [fresh_eq_listed]
  decide +kernel

end Worksheet.Document
