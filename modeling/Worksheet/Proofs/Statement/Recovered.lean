import Worksheet.Proofs.Rendering.Units
import Worksheet.Proofs.Statement.Result
import Worksheet.Proofs.UnitTable.Exact
/-!
# Units are recovered from results

The units that stand behind a rendered value are read as those that the value was rendered in.
-/

namespace Worksheet

open Text

namespace UnitTable

variable {t : UnitTable} {text text' : String} {p : UnitProduct}

/-- Only the plain spelling of a unit text counts. -/
theorem parse_congr (t : UnitTable)
    (h : UnitText.plain text.toList = UnitText.plain text'.toList) :
    t.parse text = t.parse text' := by
  unfold parse
  rw [h]

/-- The exponents of a product that is read have opposites, but for the least. -/
theorem isExponent_of_parse (h : t.parse text = .ok p)
    (hleast : ∀ f ∈ p.factors, minExponent < f.2) : ∀ f ∈ p.factors, IsExponent f.2 := by
  intro f hf
  have hne : f.2 ≠ 0 := closed_reduced.parse h f hf
  have hfits : fitsExponent f.2 := closed_fits.parse h f hf
  simp only [fitsExponent, Bool.and_eq_true, decide_eq_true_eq] at hfits
  exact ⟨hne, hleast f hf, hfits.2⟩

end UnitTable

namespace Rendering

variable {r : Rendering} {p : UnitProduct}

theorem composes_stops (f : Char → Bool) : Composes (Stops f) where
  nil := stops_nil
  append {cs ds} h h' := by
    cases cs with
    | nil => exact h'
    | cons c cs => exact stops_cons.2 (stops_cons.1 h)

/-- No blank stands before units. -/
theorem trimStart_units (hfs : p.Over r.ReadsBack) :
    trimStart (r.units p).toList = (r.units p).toList := by
  refine dropWhile_of_stops (units_of_factors (composes_stops isBlank) (stops_cons.2 (by decide))
    (stops_cons.2 (by decide)) (stops_cons.2 (by decide)) (fun _ => stops_cons.2 (by decide))
    fun f hf e => ?_)
  obtain ⟨bare, name, hspelled, -⟩ := hfs f hf
  rw [toList_factor]
  exact UnitTable.stops_append hspelled.stops.1 hspelled.stops.2 _

/-- Blanks around units do not count. -/
theorem parse_trim_units (hne : p ≠ .one) (hfs : p.Over r.ReadsBack)
    (hexponents : ∀ f ∈ p.factors, IsExponent f.2) :
    r.table.parse (String.ofList (trim (r.units p).toList)) = .ok p := by
  have hfactors : p.factors ≠ [] := fun hnil =>
    hne (UnitProduct.eq_one_of_isOne (List.isEmpty_iff.2 hnil))
  have hplain : UnitText.plain (String.ofList (trim (r.units p).toList)).toList =
      UnitText.plain (r.units p).toList := by
    rw [String.toList_ofList, trim, trimStart_units hfs]
    exact (productText_units hfactors hfs hexponents).plain_trimEnd
  rw [r.table.parse_congr hplain]
  exact (parse_units hfs hexponents).1

theorem trim_units_ne_nil (hne : p ≠ .one) (hfs : p.Over r.ReadsBack)
    (hexponents : ∀ f ∈ p.factors, IsExponent f.2) : trim (r.units p).toList ≠ [] := by
  intro hnil
  have hparse := parse_trim_units hne hfs hexponents
  rw [hnil] at hparse
  exact hne (Except.ok.inj hparse).symm

end Rendering

namespace Result

variable {r : Rendering} {p : UnitProduct} {v : Value} {markup : Option (List Char)}

theorem hint?_trimEnd {cs : List Char} (h : trimEnd cs = cs) (markup : Option (List Char)) :
    hint? (trimEnd (' ' :: cs)) markup = hint? (' ' :: cs) markup := by
  rw [trimEnd_cons, h]
  by_cases hnil : cs = []
  · subst hnil
    rfl
  · rw [if_neg hnil]

/-- Nothing is recovered from numbers without units. -/
theorem hint?_value_one (hmarkup : markup.bind Markup.hint? = none)
    (hunits : ∀ q ∈ v.quantities, q.units = .one) (hlegible : Legible r.settings v) :
    hint? (' ' :: (r.value v).toList) markup = none := by
  have hclosed : Closed false (r.units .one).toList :=
    Rendering.closed_units fun f hf => absurd hf List.not_mem_nil
  have hcontent := unitContent_value (fun _ => rfl) hunits hlegible hclosed
  have hone : UnitProduct.one.isOne = true := rfl
  rw [if_pos hone] at hcontent
  simp only [hint?, hmarkup, hcontent]

/-- What is recovered from a value is read as its units. -/
theorem hint?_value_parse (hmarkup : markup.bind Markup.hint? = none)
    (hnonempty : v.quantities ≠ []) (hunits : ∀ q ∈ v.quantities, q.units = p)
    (hlegible : Legible r.settings v) (hclosed : Closed false (r.units p).toList) (hne : p ≠ .one)
    (hfs : p.Over r.ReadsBack) (hexponents : ∀ f ∈ p.factors, IsExponent f.2) :
    ∃ hint, hint? (' ' :: (r.value v).toList) markup = some hint ∧ r.table.parse hint = .ok p := by
  have hone : ¬p.isOne := fun h => hne (UnitProduct.eq_one_of_isOne h)
  have hcontent := unitContent_value (fun h => absurd h hnonempty) hunits hlegible hclosed
  obtain ⟨c, cs, hhint⟩ :=
    List.exists_cons_of_ne_nil (Rendering.trim_units_ne_nil hne hfs hexponents)
  rw [if_neg hone, hhint] at hcontent
  refine ⟨String.ofList (c :: cs), ?_, ?_⟩
  · simp only [hint?, hmarkup, hcontent]
  · rw [← hhint]
    exact Rendering.parse_trim_units hne hfs hexponents

end Result

end Worksheet
