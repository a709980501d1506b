import Worksheet.Proofs.Document.Shown
import Worksheet.Proofs.Statement.Again
import Worksheet.Proofs.Statement.Recovered
/-!
# Units that are remembered

A value that is shown in the unit asked for is rendered with that unit behind it, and the rendered
text asks for the same unit. It cannot do so if there is no unit to be seen.
-/

namespace Worksheet.Document

open Statement Rendering UnitTable Text

variable {d : Document} {text asked : String} {hint own : Option String} {st : Statement}
  {p : ParsedStatement} {w : Value} {units : UnitProduct} {effect : Effect}

/-! ## Values in the unit asked for -/

/-- A run shows the value of a statement in the unit that it is asked for. -/
inductive Converts (d : Document) (st : Statement) (asked : String) :
    UnitProduct → Value → Effect → Prop where
  | intro {f : Fragment} {own : Option String} {v w : Value} {ws : List Diagnostic}
      {units : UnitProduct} {target : Quantity} {registry : Registry}
      (valued : st.valued? = some f) (display : st.display? = some (.convert own))
      (evaluated : d.evaluate f = .ok (v, ws)) (parsed : d.table.parse asked = .ok units)
      (known : d.table.quantity? 1 units = some target) (fits : v.mapM (convert target) = .ok w)
      (bound : d.bound v st = .ok registry) :
      Converts d st asked units w ⟨some (d.rendering.value w), ws, registry⟩

theorem valued?_of_display {display : Display} (h : st.display? = some display) :
    ∃ f, st.valued? = some f := by
  cases st with
  | definition => cases h
  | assignment name expr shown => exact ⟨expr, rfl⟩
  | display expr shown => exact ⟨expr, rfl⟩

theorem converts_of_run (hdisplay : st.display? = some (.convert own))
    (hrun : d.run st (some asked) = .ok effect) (hmet : effect.unmet = false) :
    ∃ units w, d.Converts st asked units w effect := by
  obtain ⟨f, hvalued⟩ := valued?_of_display hdisplay
  rw [run_shows hvalued hdisplay] at hrun
  obtain ⟨⟨v, ws⟩, heval, hrun⟩ := bind_eq_ok.1 hrun
  obtain ⟨⟨shown, more⟩, hpresent, hrun⟩ := bind_eq_ok.1 hrun
  obtain ⟨registry, hbound, hrun⟩ := bind_eq_ok.1 hrun
  cases hrun
  cases present_eq_ok_iff.1 hpresent with
  | converted hparsed hknown hfits =>
    rw [List.append_nil]
    exact ⟨_, _, .intro hvalued hdisplay heval hparsed hknown hfits hbound⟩
  | unmet => simp [Effect.unmet, mismatchWarning, Diagnostic.warning] at hmet

theorem Converts.run (h : d.Converts st asked units w effect) :
    d.run st (some asked) = .ok effect := by
  obtain ⟨hvalued, hdisplay, heval, hparsed, hknown, hfits, hbound⟩ := h
  have hpresent : ∀ own span, d.present _ (.convert own) (some asked) span =
      .ok (d.rendering.value w, []) :=
    fun own span => present_eq_ok_iff.2 (.converted hparsed hknown hfits)
  rw [run_shows hvalued hdisplay, heval]
  simp [hpresent, hbound]

/-- The unit may be spelled in another way. -/
theorem Converts.respelled (h : d.Converts st asked units w effect) {asked' : String}
    (hparse : d.table.parse asked' = .ok units) : d.Converts st asked' units w effect := by
  obtain ⟨hvalued, hdisplay, heval, -, hknown, hfits, hbound⟩ := h
  exact .intro hvalued hdisplay heval hparse hknown hfits hbound

theorem Converts.shownBy? (h : d.Converts st asked units w effect) :
    d.shownBy? st (some asked) = some w := by
  obtain ⟨hvalued, hdisplay, heval, hparsed, hknown, hfits, -⟩ := h
  rw [shownBy?_eq hvalued hdisplay heval]
  simp [chosen?, applyHint, hparsed, hknown, hfits, Except.toOption]

theorem Converts.parsed (h : d.Converts st asked units w effect) :
    d.table.parse asked = .ok units := by
  obtain ⟨-, -, -, hparsed, -⟩ := h
  exact hparsed

theorem Converts.shown (h : d.Converts st asked units w effect) :
    effect.shown = some (d.rendering.value w) := by
  obtain ⟨-⟩ := h
  rfl

theorem convert_units {target q r : Quantity} (h : convert target q = .ok r) :
    r.units = target.units := by
  unfold convert at h
  split at h
  · cases h
    rfl
  · split at h
    · rename_i converted hconverted
      cases h
      obtain ⟨-, rfl⟩ := Quantity.convertTo?_eq_some hconverted
      rfl
    · cases h

theorem Converts.units_eq (h : d.Converts st asked units w effect) :
    ∀ q ∈ w.quantities, q.units = units := by
  obtain ⟨-, -, -, -, hknown, hfits, -⟩ := h
  obtain ⟨-, -, hunits, -⟩ := quantity?_eq_some hknown
  exact Value.all_of_mapM (fun q r hr => (convert_units hr).trans hunits) hfits

/-- Asked for no unit, the statement has the same warnings. -/
theorem Converts.unasked (h : d.Converts st asked units w effect) :
    ∃ effect', d.run st none = .ok effect' ∧ effect'.warnings = effect.warnings := by
  obtain ⟨hvalued, hdisplay, heval, -, -, -, hbound⟩ := h
  rw [run_shows hvalued hdisplay, heval]
  simp only [ok_bind, present, pure_eq_ok, hbound, List.append_nil]
  exact ⟨_, rfl, rfl⟩

/-! ## The rendered statement -/

/-- No unit is kept in the markup of a statement whose value could be given in the unit. -/
theorem hint?_markup (hint : Option String) {result : List Char} (hresult : IsResult text result)
    (hmet : effect.unmet = false) :
    (Markup.split (leadOf text ++ result ++ markupText hint (.ok effect))).2.bind
      Markup.hint? = none := by
  rcases hresult.split_markup (isMarkup_markupText hint (.ok effect)) with hnone | hsome
  · rw [hnone, Option.bind_none]
  · rw [hsome]
    rcases markupText_met hmet hint with hempty | ⟨message, hrender⟩
    · rw [hempty, Option.bind_some, Markup.hint?_nil]
    · rw [hrender, Option.bind_some, Markup.hint?_render_none]

/-- The rendered statement asks for what is recovered from its value. -/
theorem parse_again {shown : String} (hparse : Statement.parse text = .ok p)
    (hown : p.statement.display? = some (.convert own)) (hshown : effect.shown = some shown)
    (hmet : effect.unmet = false) (hclosed : Closed true shown.toList)
    (htrim : trimEnd shown.toList = shown.toList) :
    ∃ markup, markup.bind Markup.hint? = none ∧
      Statement.parse (d.conclude p.lead (some asked) (.ok effect)).1.rendered =
        .ok (p.asking (Result.hint? (' ' :: shown.toList) markup)) := by
  have hresult : IsResult text (' ' :: shown.toList) := by
    have hstands := isResult_shown ⟨p, hparse, hown ▸ Option.some_ne_none _⟩ hclosed
    rwa [String.toList_append] at hstands
  have hread := hresult.parse_convert (isMarkup_markupText (some asked) (.ok effect)) hparse hown
  rw [Result.hint?_trimEnd htrim] at hread
  refine ⟨_, hint?_markup (some asked) hresult hmet, ?_⟩
  rw [conclude_rendered, ← leadOf_ok hparse, ← hread]
  simp [resultText, hshown]

/-- The lead by itself asks for nothing. -/
theorem parse_lead (hparse : Statement.parse text = .ok p)
    (hown : p.statement.display? = some (.convert own)) :
    Statement.parse (String.ofList (leadOf text)) = .ok (p.asking none) := by
  have hread := (isResult_nil text).parse_convert (.inl rfl : IsMarkup []) hparse hown
  have hnone : (Markup.split (leadOf text ++ [] ++ [])).2.bind Markup.hint? = none := by
    rcases (isResult_nil text).split_markup (.inl rfl : IsMarkup []) with h | h
    · rw [h, Option.bind_none]
    · rw [h, Option.bind_some, Markup.hint?_nil]
  have hhint : Result.hint? (trimEnd []) (Markup.split (leadOf text ++ [] ++ [])).2 = none := by
    unfold Result.hint?
    rw [hnone]
    rfl
  rw [hhint] at hread
  simpa using hread

/-! ## Standard units -/

/-- The value that is shown has its number in figures, and units that can be written with exponents
in range. -/
structure Readable (settings : Settings) (w : Value) : Prop where
  legible : Result.Legible settings w
  exponents : ∀ units ∈ w.units, ∀ f ∈ units.factors, minExponent < f.2

section

variable (htable : d.table = .standard)

include htable

theorem Converts.canonical (h : d.Converts st asked units w effect) :
    units.Over d.table.IsCanonical := by
  have hparsed := h.parsed
  rw [htable] at hparsed ⊢
  exact canonical_of_parse standard_integrity hparsed

theorem Converts.symbols_closed (h : d.Converts st asked units w effect) :
    units.Over fun s => Closed false (symbolText (d.rendering.table.displaySymbol s)).toList := by
  have hcanonical := h.canonical htable
  change units.Over fun s => Closed false (symbolText (d.table.displaySymbol s)).toList
  rw [htable] at hcanonical ⊢
  refine closed_symbols standard_isBare (hcanonical.mono fun s hs => ?_)
  obtain ⟨entry, hentry, -⟩ := hs
  exact Option.isSome_iff_exists.2 ⟨entry, hentry⟩

theorem Converts.readsBack (h : d.Converts st asked units w effect) :
    units.Over d.rendering.ReadsBack := by
  obtain ⟨table, settings, registry, errors, warnings⟩ := d
  obtain rfl : table = .standard := htable
  exact (h.canonical rfl).mono fun s hs =>
    UnitTable.readsBack (standard_showsWords s hs) (standard_keepsSpelling hs)

/-- The rendered statement is read as the statement, asking for what is recovered from its value. -/
theorem Converts.parse_again (h : d.Converts p.statement asked units w effect)
    (hparse : Statement.parse text = .ok p) (hown : p.statement.display? = some (.convert own))
    (hmet : effect.unmet = false) :
    ∃ markup, markup.bind Markup.hint? = none ∧
      Statement.parse (d.conclude p.lead (some asked) (.ok effect)).1.rendered =
        .ok (p.asking (Result.hint? (' ' :: (d.rendering.value w).toList) markup)) := by
  have hclosed : Closed true (d.rendering.value w).toList := by
    refine closed_value fun q hq => ?_
    rw [h.units_eq q hq]
    exact h.symbols_closed htable
  exact Document.parse_again hparse hown h.shown hmet hclosed (Result.trimEnd_value _ _)

/-- A value with units in it is shown in the same again, and all else comes out as before. -/
theorem Converts.process_again (h : d.Converts p.statement asked units w effect)
    (hparse : Statement.parse text = .ok p) (hown : p.statement.display? = some (.convert own))
    (hmet : effect.unmet = false) (hreadable : Readable d.settings w)
    (hunits : ∃ u ∈ w.units, u ≠ .one) :
    let rendered := (d.conclude p.lead (some asked) (.ok effect)).1.rendered
    d.process rendered none = d.conclude p.lead (some asked) (.ok effect) ∧
      d.shown? rendered none = some w := by
  intro rendered
  obtain ⟨u, hu, hne⟩ := hunits
  obtain ⟨q, hq, rfl⟩ := List.mem_map.1 hu
  have hexponents := hreadable.exponents _ hu
  rw [h.units_eq q hq] at hne hexponents
  obtain ⟨markup, hnone, hagain⟩ := h.parse_again htable hparse hown hmet
  obtain ⟨unit, hhint, hunit⟩ := Result.hint?_value_parse (r := d.rendering) hnone
    (List.ne_nil_of_mem hq) h.units_eq hreadable.legible (closed_units (h.symbols_closed htable))
    hne (h.readsBack htable) (isExponent_of_parse h.parsed hexponents)
  rw [hhint] at hagain
  have hconverts := h.respelled hunit
  refine ⟨?_, ?_⟩
  · rw [process_asking d hagain hown, hconverts.run]
    exact conclude_met hmet d p.lead (some unit) (some asked)
  · rw [shown?_asking hagain hown, hconverts.shownBy?]

/-- A value without units is shown as if no unit was asked for. -/
theorem Converts.process_unnamed (h : d.Converts p.statement asked units w effect)
    (hparse : Statement.parse text = .ok p) (hown : p.statement.display? = some (.convert own))
    (hmet : effect.unmet = false) (hlegible : Result.Legible d.settings w)
    (hunits : ∀ q ∈ w.quantities, q.units = .one) :
    let rendered := (d.conclude p.lead (some asked) (.ok effect)).1.rendered
    d.process rendered none = d.conclude p.lead none (d.run p.statement none) ∧
      d.shown? rendered none = d.shownBy? p.statement none := by
  intro rendered
  obtain ⟨markup, hnone, hagain⟩ := h.parse_again htable hparse hown hmet
  rw [Result.hint?_value_one (r := d.rendering) hnone hunits hlegible] at hagain
  exact ⟨process_asking d hagain hown, shown?_asking hagain hown⟩

end

/-! ## Honoured and remembered -/

/-- The unit that a text asks for, or else its caller, if it shows a value in units. -/
def asked? (text : String) (hint : Option String) : Option String :=
  match Statement.parse text with
  | .ok p => requestedHint p.statement.display? hint
  | .error _ => none

theorem requestedHint_eq_some {display : Option Display}
    (h : requestedHint display hint = some asked) : ∃ own, display = some (.convert own) := by
  match display with
  | none => cases h
  | some .raw => cases h
  | some (.convert own) => exact ⟨own, rfl⟩

theorem asked?_eq_some (h : asked? text hint = some asked) :
    ∃ p own, Statement.parse text = .ok p ∧ p.statement.display? = some (.convert own) ∧
      requestedHint p.statement.display? hint = some asked := by
  unfold asked? at h
  cases hparse : Statement.parse text with
  | error e =>
    rw [hparse] at h
    cases h
  | ok p =>
    rw [hparse] at h
    obtain ⟨own, hown⟩ := requestedHint_eq_some h
    exact ⟨p, own, rfl, hown, h⟩

/-- A unit is asked for and the value is shown in it: there is no error, and nothing has another
dimension. -/
structure Honours (d : Document) (text : String) (hint : Option String) : Prop where
  asked : (asked? text hint).isSome
  met : ∀ w ∈ (d.process text hint).1.diagnostics, w.isError = false ∧ w.code ≠ .conversionMismatch

/-- The rendered text is processed in the same document without errors, and shows the value in the
same units. -/
structure Remembers (d : Document) (text : String) (hint : Option String) : Prop where
  fine : (d.process (d.process text hint).1.rendered none).1.hasErrors = false
  kept : (d.shown? (d.process text hint).1.rendered none).map Value.units =
    (d.shown? text hint).map Value.units

theorem Honours.converts (h : d.Honours text hint) :
    ∃ p own asked units w effect, Statement.parse text = .ok p ∧
      p.statement.display? = some (.convert own) ∧
      requestedHint p.statement.display? hint = some asked ∧
      d.Converts p.statement asked units w effect ∧ effect.unmet = false ∧
      (∀ w ∈ effect.warnings, w.isError = false) ∧
      d.process text hint = d.conclude p.lead (some asked) (.ok effect) := by
  obtain ⟨hsome, hmet⟩ := h
  obtain ⟨asked, hasked⟩ := Option.isSome_iff_exists.1 hsome
  obtain ⟨p, own, hparse, hown, hasked⟩ := asked?_eq_some hasked
  rw [process_ok d hparse, hasked] at hmet
  have hprocess := process_ok d hparse hint
  rw [hasked] at hprocess
  cases hrun : d.run p.statement (some asked) with
  | error e =>
    rw [hrun] at hmet
    have herror := (hmet _ List.mem_cons_self).1
    cases herror
  | ok effect =>
    rw [hrun] at hmet hprocess
    have hunmet : effect.unmet = false := by
      rw [Bool.eq_false_iff]
      intro hunmet
      obtain ⟨w, hw, hcode⟩ := List.any_eq_true.1 hunmet
      exact (hmet w hw).2 (of_decide_eq_true hcode)
    obtain ⟨units, w, hconverts⟩ := converts_of_run hown hrun hunmet
    exact ⟨p, own, asked, units, w, effect, hparse, hown, hasked, hconverts, hunmet,
      fun w hw => (hmet w hw).1, hprocess⟩

theorem hasErrors_conclude (h : ∀ w ∈ effect.warnings, w.isError = false) (lead : String)
    (hint : Option String) : (d.conclude lead hint (.ok effect)).1.hasErrors = false :=
  List.any_eq_false.2 fun w hw => by simp [h w hw]

/-- A unit that was honoured is remembered by the rendered text if there is one to be seen, and then
all comes out as before. Without one, it is remembered exactly if the value is shown without units
anyway. -/
theorem remembers_iff (htable : d.table = .standard) (h : d.Honours text hint)
    (hshown : d.shown? text hint = some w) (hreadable : Readable d.settings w) :
    (d.Remembers text hint ↔ (∃ units ∈ w.units, units ≠ .one) ∨
      (d.shown? (String.ofList (leadOf text)) none).map Value.units = some w.units) ∧
    ((∃ units ∈ w.units, units ≠ .one) →
      d.process (d.process text hint).1.rendered none = d.process text hint) := by
  obtain ⟨p, own, asked, units, w', effect, hparse, hown, hasked, hconverts, hmet, hfine,
    hprocess⟩ := h.converts
  obtain rfl : w' = w := by
    have hfirst : d.shown? text hint = some w' := by
      unfold shown?
      rw [hparse]
      dsimp only
      rw [hasked, hconverts.shownBy?]
    exact Option.some.inj (hfirst.symm.trans hshown)
  by_cases hunits : ∃ units ∈ w'.units, units ≠ .one
  · obtain ⟨hagain, hkept⟩ := hconverts.process_again htable hparse hown hmet hreadable hunits
    rw [← hprocess] at hagain hkept
    refine ⟨iff_of_true ⟨?_, ?_⟩ (.inl hunits), fun _ => hagain⟩
    · rw [hagain, hprocess]
      exact hasErrors_conclude hfine p.lead (some asked)
    · rw [hkept, hshown]
  · have hone : ∀ q ∈ w'.quantities, q.units = .one := fun q hq =>
      Classical.byContradiction fun hne => hunits ⟨q.units, List.mem_map_of_mem hq, hne⟩
    obtain ⟨hagain, hkept⟩ :=
      hconverts.process_unnamed htable hparse hown hmet hreadable.legible hone
    rw [← hprocess] at hagain hkept
    have hlead : d.shown? (String.ofList (leadOf text)) none = d.shownBy? p.statement none :=
      shown?_asking (parse_lead hparse hown) hown
    refine ⟨?_, fun hsome => absurd hsome hunits⟩
    rw [hlead]
    constructor
    · intro hremembers
      have hsame := hremembers.kept
      rw [hkept, hshown] at hsame
      exact .inr hsame
    · rintro (hsome | hsame)
      · exact absurd hsome hunits
      · refine ⟨?_, by rw [hkept, hshown, hsame, Option.map_some]⟩
        obtain ⟨effect', hrun, hwarnings⟩ := hconverts.unasked
        rw [← hwarnings] at hfine
        rw [hagain, hrun]
        exact hasErrors_conclude hfine p.lead none

/-- Kilometres that are shown in metres. -/
def kilometres : String := "2\\,\\mathrm\x7bkm\x7d == \\mathrm\x7bm\x7d"

def metres : Value := .scalar ⟨2000, .unit "m", .unit "m", 1, 0⟩

theorem remembers_kilometres :
    (fresh {}).Honours kilometres none ∧ (fresh {}).shown? kilometres none = some metres ∧
      Readable {} metres ∧ (fresh {}).Remembers kilometres none := by
  obtain ⟨hmet, hshown⟩ : (∀ w ∈ ((fresh {}).process kilometres none).1.diagnostics,
      w.isError = false ∧ w.code ≠ .conversionMismatch) ∧
      (fresh {}).shown? kilometres none = some metres := by
    rw [fresh_eq_listed]
    decide +kernel
  have hhonours : (fresh {}).Honours kilometres none := ⟨by decide +kernel, hmet⟩
  have hnumber : number {} 2000 ∉ spelledOut := by decide
  have hreadable : Readable {} metres := ⟨hnumber, by decide⟩
  have hunits : ∃ units ∈ metres.units, units ≠ .one := by decide
  exact ⟨hhonours, hshown, hreadable,
    (remembers_iff rfl hhonours hshown hreadable).1.2 (.inl hunits)⟩

/-- A percentage shown as the number that it is has no unit in its rendered text, and is shown as a
percentage the next time. -/
theorem percentage_forgotten :
    (fresh {}).Honours percentage none ∧ ¬(fresh {}).Remembers percentage none := by
  obtain ⟨hmet, hunits⟩ : (∀ w ∈ ((fresh {}).process percentage none).1.diagnostics,
      w.isError = false ∧ w.code ≠ .conversionMismatch) ∧
      ((fresh {}).shown? ((fresh {}).process percentage none).1.rendered none).map Value.units ≠
        ((fresh {}).shown? percentage none).map Value.units := by
    rw [fresh_eq_listed]
    decide +kernel
  exact ⟨⟨by decide +kernel, hmet⟩, fun h => hunits h.kept⟩

end Worksheet.Document
