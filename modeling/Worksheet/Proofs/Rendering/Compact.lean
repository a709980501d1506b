import Worksheet.Proofs.Evaluation.Ensures
import Worksheet.Proofs.Rendering.Prefixes
import Worksheet.Proofs.UnitTable.Dimensions
import Worksheet.Proofs.UnitTable.Families
import Worksheet.Proofs.UnitTable.Scale
/-!
# Values with another prefix

A value that is shown with another prefix keeps its dimension, and in exact arithmetic its value,
unless the unit that is chosen counts from another zero.
-/

namespace Worksheet

open Number

variable {r : Rendering} {v : Value} {old new symbol : String} {factor : Float}
  {units : UnitProduct} {definitions : List UnitDefinition}

/-! ## Units above the line -/

namespace UnitProduct

variable {p : UnitProduct}

/-- The symbol has the exponent one, and no other symbol has a positive one. -/
structure Leads (p : UnitProduct) (symbol : String) : Prop where
  get : p.get symbol = 1
  others : ∀ s, s ≠ symbol → p.get s ≤ 0

theorem leads_of_leadingSymbol? (h : Rendering.leadingSymbol? p = some symbol) :
    p.Leads symbol := by
  have hnumerator : p.numerator = [(symbol, 1)] := by
    unfold Rendering.leadingSymbol? at h
    split at h
    · rename_i s hs
      cases h
      exact hs
    · cases h
  have hmem : (symbol, 1) ∈ p.numerator := by simp [hnumerator]
  refine ⟨get_of_mem (List.mem_filter.1 hmem).1, fun s hs => ?_⟩
  by_contra hpositive
  have hne : p.get s ≠ 0 := by omega
  have hfactor := mem_of_get_ne_zero hne
  have habove : (s, p.get s) ∈ p.numerator := List.mem_filter.2 ⟨hfactor, by simp; omega⟩
  rw [hnumerator, List.mem_singleton] at habove
  exact hs (Prod.mk.inj habove).1

/-- The product with another unit in the place of one. -/
def replace (p : UnitProduct) (old new : String) : UnitProduct :=
  (p.set old 0).set new (1 + (p.set old 0).get new)

theorem Leads.get_set_le (h : p.Leads old) (s : String) : (p.set old 0).get s ≤ 0 := by
  rw [get_set]
  split
  · exact le_rfl
  · rename_i hs
    exact h.others s hs

theorem replace_eq (hfits : p.Fits) (h : p.Leads old) :
    (p.div (.unit old)).mul (.unit new) = p.replace old new := by
  have hdiv : p.div (.unit old) = p.set old 0 := by
    have hfactors : (unit old).reciprocal.factors = [(old, -1)] := rfl
    rw [div, mul, hfactors, List.foldl_cons, List.foldl_nil]
    dsimp only
    rw [h.get]
    rfl
  have hclamp : clampExponent (1 + (p.set old 0).get new) = 1 + (p.set old 0).get new := by
    apply clampExponent_of_fits
    have hnew := (hfits.set old (e := 0) (by decide)).get new
    have hle := h.get_set_le new
    rw [fitsExponent_iff] at hnew ⊢
    simp only [minExponent, maxExponent] at hnew ⊢
    omega
  have hfactors : (unit new).factors = [(new, 1)] := rfl
  rw [hdiv, mul, hfactors, List.foldl_cons, List.foldl_nil]
  dsimp only
  rw [hclamp]
  rfl

theorem total_replace (h : p.Leads old) (w : String → Int) :
    (p.replace old new).total w = p.total w - w old + w new := by
  rw [replace, total_set, total_set, h.get]
  ring

theorem value_replace {ρ : String → ℚ} (h : p.Leads old) (hold : ρ old ≠ 0) (hnew : ρ new ≠ 0) :
    (p.replace old new).value ρ = p.value ρ / ρ old * ρ new := by
  rw [replace, value_set _ _ hnew, value_set _ _ hold, h.get, zero_sub, zpow_neg_one,
    add_sub_cancel_right, zpow_one, div_eq_mul_inv]

/-- No other unit is left above the line. -/
theorem replace_eq_unit (h : p.Leads old) (hlone : (p.replace old new).factors = [(symbol, 1)]) :
    p.replace old new = .unit new := by
  have hget : (p.replace old new).get symbol = 1 :=
    get_of_mem (f := (symbol, 1)) (by simp [hlone])
  have hsymbol : symbol = new := by
    by_contra hne
    rw [replace, get_set, if_neg hne] at hget
    have hle := h.get_set_le symbol
    omega
  generalize p.replace old new = q at hlone
  obtain ⟨fs, hsorted⟩ := q
  obtain rfl : fs = [(symbol, 1)] := hlone
  subst hsymbol
  rfl

end UnitProduct

/-! ## Choosing a prefix -/

namespace UnitTable

variable {t : UnitTable}

/-- Only a unit that stands alone has an offset. -/
theorem offsetOf_replace (h : units.Leads old) (hne : units.replace old new ≠ .unit new) :
    t.offsetOf (units.replace old new) = 0 := by
  unfold offsetOf
  split
  · rename_i s hfactors
    exact absurd (UnitProduct.replace_eq_unit h hfactors) hne
  · rfl

end UnitTable

namespace Rendering

/-- Scales that bring a magnitude into a handy range are not zero. -/
theorem exactValue_ne_zero_of_isHandy {size x y : Float} (h : isHandy (size * (x / y))) :
    exactValue x ≠ 0 ∧ exactValue y ≠ 0 := by
  unfold isHandy at h
  rw [Bool.and_eq_true, decide_eq_true_eq, decide_eq_true_eq] at h
  have hone : isPositive (1 : Float).toModel.unpack := by decide
  have hthousand : isPositive (1000 : Float).toModel.unpack := by decide
  have hproduct := isRegular_of_between hone hthousand h.1 h.2
  have hratio := isRegular_of_div (isRegular_of_mul hproduct).2
  exact ⟨exactValue_ne_zero hratio.1, exactValue_ne_zero hratio.2⟩

/-- The unit that is chosen differs by its scale and its offset only. -/
structure Exchange (t : UnitTable) (units : UnitProduct) (old new : String)
    (current entry : UnitEntry) : Prop where
  leads : units.Leads old
  lookup_old : t.lookup old = some current
  lookup_new : t.lookup new = some entry
  dimension : entry.dimension = current.dimension
  current_ne : exactValue current.scale ≠ 0
  entry_ne : exactValue entry.scale ≠ 0

theorem Respells.exchange (ht : r.table.Families) (h : r.Respells v units old new factor) :
    ∃ current entry, Exchange r.table units old new current entry ∧
      factor = current.scale / entry.scale := by
  obtain ⟨-, hleading, -, current, hcurrent, hhandy⟩ := h
  obtain ⟨hmem, entry, hentry, rfl, hhandy⟩ := handySymbol?_eq_some hhandy
  obtain ⟨-, dimension, ⟨current', hcurrent', -, rfl⟩, hmembers⟩ :=
    ht.family (List.ne_nil_of_mem hmem)
  obtain ⟨entry', hentry', -, hdimension⟩ := hmembers new hmem
  obtain rfl : current = current' := Option.some.inj (hcurrent.symm.trans hcurrent')
  obtain rfl : entry = entry' := Option.some.inj (hentry.symm.trans hentry')
  obtain ⟨hcurrent_ne, hentry_ne⟩ := exactValue_ne_zero_of_isHandy hhandy
  exact ⟨current, entry, ⟨UnitProduct.leads_of_leadingSymbol? hleading, hcurrent, hentry,
    hdimension, hcurrent_ne, hentry_ne⟩, rfl⟩

/-! ## One quantity -/

/-- The second quantity is the first, or it has another unit in the place of one, and a magnitude
times the ratio of their scales; in exact arithmetic it then comes to the same in base units. -/
def SameSi (t : UnitTable) (q p : Quantity) : Prop :=
  p = q ∨ ∃ old new current entry,
    t.lookup old = some current ∧ t.lookup new = some entry ∧
    p.units = q.units.replace old new ∧
    p.magnitude = q.magnitude * (current.scale / entry.scale) ∧
    ∀ x : ℚ, t.exactSi (x * (exactValue current.scale / exactValue entry.scale)) p.units =
      t.exactSi x q.units

theorem Exchange.exactScale {t : UnitTable} {current entry : UnitEntry}
    (h : Exchange t units old new current entry) :
    t.exactScale (units.replace old new) =
      t.exactScale units / exactValue current.scale * exactValue entry.scale := by
  have hold := UnitTable.exactScaleOf_eq h.lookup_old
  have hnew := UnitTable.exactScaleOf_eq h.lookup_new
  rw [UnitTable.exactScale, UnitProduct.value_replace h.leads (hold ▸ h.current_ne)
    (hnew ▸ h.entry_ne), hold, hnew]
  rfl

/-- Exact arithmetic gives the same value if no offset comes in. -/
theorem Exchange.exactSi {t : UnitTable} {current entry : UnitEntry}
    (h : Exchange t units old new current entry) (hunits : (t.offsetOf units == 0) = true)
    (hreplaced : (t.offsetOf (units.replace old new) == 0) = true) (x : ℚ) :
    t.exactSi (x * (exactValue current.scale / exactValue entry.scale)) (units.replace old new) =
      t.exactSi x units := by
  have hcurrent := h.current_ne
  have hentry := h.entry_ne
  rw [UnitTable.exactSi_of_offset hreplaced, UnitTable.exactSi_of_offset hunits, h.exactScale]
  field_simp

/-- Exponents add up to the same dimension. -/
theorem Exchange.measure {t : UnitTable} {current entry : UnitEntry}
    (h : Exchange t units old new current entry) {dimension dimension' : UnitProduct}
    {scale scale' : Float} (hunits : t.measure? units = some (dimension, scale))
    (hreplaced : t.measure? (units.replace old new) = some (dimension', scale')) :
    dimension' = dimension := by
  have hold := UnitTable.dimensionOf_eq h.lookup_old
  have hnew := UnitTable.dimensionOf_eq h.lookup_new
  refine (UnitProduct.eq_iff_get (UnitTable.measure?_normal hreplaced)
    (UnitTable.measure?_normal hunits)).2 fun b => ?_
  rw [UnitTable.measure?_get hreplaced, UnitTable.measure?_get hunits,
    UnitProduct.total_replace h.leads, hold, hnew, h.dimension, sub_add_cancel]

/-! ## All of a value -/

/-- The value comes to stand in a lone unit that counts from another zero. -/
def GainsOffset (r : Rendering) (v : Value) : Prop :=
  ∃ units old new factor entry, r.Respells v units old new factor ∧
    units.replace old new = .unit new ∧ r.table.lookup new = some entry ∧
    (entry.offset == 0) = false

/-- The value keeps its shape and its dimension, and all of it keeps counting from zero exactly if it
does not gain an offset. In exact arithmetic it then comes to the same. -/
structure KeepsQuantity (r : Rendering) (v : Value) : Prop where
  isArray : (r.compact v).isArray = v.isArray
  dimension : List.Forall₂ (fun q p => p.dimension = q.dimension) v.quantities
    (r.compact v).quantities
  offset : ∀ first, v.first? = some first → (first.offset == 0) = true →
    ((∀ p ∈ (r.compact v).quantities, (p.offset == 0) = true) ↔ ¬r.GainsOffset v)
  si : ∀ first, v.first? = some first → (first.offset == 0) = true → ¬r.GainsOffset v →
    List.Forall₂ (SameSi r.table) v.quantities (r.compact v).quantities

theorem quantities_map (f : Quantity → Quantity) (v : Value) :
    (v.map f).quantities = v.quantities.map f := by
  cases v <;> rfl

theorem isArray_map (f : Quantity → Quantity) (v : Value) : (v.map f).isArray = v.isArray := by
  cases v <;> rfl

theorem mem_of_first? {first : Quantity} (h : v.first? = some first) : first ∈ v.quantities :=
  List.mem_of_head? h

/-- The quantities are made by the table, in the same units. -/
def MadeIn (t : UnitTable) (units : UnitProduct) (v : Value) : Prop :=
  ∀ q ∈ v.quantities, t.quantity? q.magnitude units = some q

/-- What holds of every quantity and itself, and of every quantity with another unit chosen, holds
throughout the value. -/
theorem compact_forall₂ {R : Quantity → Quantity → Prop} (hfits : units.Fits)
    (hv : MadeIn r.table units v) (hsame : ∀ q ∈ v.quantities, R q q)
    (hother : ∀ old new factor, r.Respells v units old new factor → ∀ q ∈ v.quantities,
      ∀ p, r.table.quantity? (q.magnitude * factor) (units.replace old new) = some p → R q p) :
    List.Forall₂ R v.quantities (r.compact v).quantities := by
  rcases r.compact_cases v with heq | ⟨units', old, new, factor, h⟩
  · rw [heq]
    exact List.forall₂_same.2 hsame
  · obtain ⟨first, hfirst, hunits, -⟩ := h.first
    obtain ⟨-, -, hunits', -⟩ := UnitTable.quantity?_eq_some (hv first (mem_of_first? hfirst))
    obtain rfl : units' = units := hunits.symm.trans hunits'
    rw [compact_of_respells h, quantities_map, List.forall₂_map_right_iff, List.forall₂_same]
    intro q hq
    have hleads := UnitProduct.leads_of_leadingSymbol? h.leading
    rw [UnitProduct.replace_eq hfits hleads]
    rcases r.respell_cases (units'.replace old new) factor q with hkept | hmade
    · rw [hkept]
      exact hsame q hq
    · exact hother old new factor h q hq _ hmade

theorem offset_of_madeIn (hv : MadeIn r.table units v) {first : Quantity}
    (hfirst : v.first? = some first) (hoffset : (first.offset == 0) = true) :
    (r.table.offsetOf units == 0) = true := by
  obtain ⟨-, -, -, heq⟩ := UnitTable.quantity?_eq_some (hv first (mem_of_first? hfirst))
  rwa [← heq]

theorem offset_of_not_gainsOffset (h : r.Respells v units old new factor) {current entry : UnitEntry}
    (hexchange : Exchange r.table units old new current entry) (hgains : ¬r.GainsOffset v) :
    (r.table.offsetOf (units.replace old new) == 0) = true := by
  by_cases hlone : units.replace old new = .unit new
  · rw [hlone, UnitTable.offsetOf_unit hexchange.lookup_new]
    by_contra hoffset
    exact hgains ⟨units, old, new, factor, entry, h, hlone, hexchange.lookup_new,
      Bool.eq_false_iff.2 hoffset⟩
  · rw [UnitTable.offsetOf_replace hexchange.leads hlone]
    decide

/-- A quantity with an offset shows that one is gained. -/
theorem offset_of_gainsOffset
    (hbuild : UnitTable.build definitions = .ok r.table) (hfits : units.Fits)
    (hv : MadeIn r.table units v) (hgains : r.GainsOffset v) :
    ∃ p ∈ (r.compact v).quantities, (p.offset == 0) = false := by
  obtain ⟨units', old, new, factor, entry, h, hlone, hentry, hoffset⟩ := hgains
  obtain ⟨first, hfirst, hunits, -⟩ := h.first
  obtain ⟨-, -, hunits', -⟩ := UnitTable.quantity?_eq_some (hv first (mem_of_first? hfirst))
  obtain rfl : units' = units := hunits.symm.trans hunits'
  have hmeasure := UnitTable.measure?_unit hentry ((UnitTable.build_normal hbuild).lookup hentry)
  refine ⟨r.respell (.unit new) factor first, ?_, ?_⟩
  · rw [compact_of_respells h, quantities_map,
      UnitProduct.replace_eq hfits (UnitProduct.leads_of_leadingSymbol? h.leading), hlone]
    exact List.mem_map_of_mem (mem_of_first? hfirst)
  · have hmade : r.respell (.unit new) factor first = ⟨first.magnitude * factor, .unit new,
        entry.dimension, 1 * Number.power entry.scale 1, r.table.offsetOf (.unit new)⟩ := by
      simp only [respell, UnitTable.quantity?, hmeasure]
      rfl
    rw [hmade]
    exact UnitTable.offsetOf_unit hentry ▸ hoffset

theorem compact_isArray (r : Rendering) (v : Value) : (r.compact v).isArray = v.isArray := by
  rcases r.compact_cases v with heq | ⟨units, old, new, factor, h⟩
  · rw [heq]
  · rw [compact_of_respells h, isArray_map]

theorem compact_dimension (hfamilies : r.table.Families) (hfits : units.Fits)
    (hv : MadeIn r.table units v) :
    List.Forall₂ (fun q p => p.dimension = q.dimension) v.quantities
      (r.compact v).quantities := by
  refine compact_forall₂ hfits hv (fun q _ => rfl) fun old new factor h q hq p hp => ?_
  obtain ⟨current, entry, hexchange, -⟩ := h.exchange hfamilies
  obtain ⟨hmeasure, -⟩ := UnitTable.quantity?_eq_some (hv q hq)
  obtain ⟨hreplaced, -⟩ := UnitTable.quantity?_eq_some hp
  exact hexchange.measure hmeasure hreplaced

theorem compact_offset (hfamilies : r.table.Families) (hfits : units.Fits)
    (hv : MadeIn r.table units v) (hunits : (r.table.offsetOf units == 0) = true)
    (hgains : ¬r.GainsOffset v) : ∀ p ∈ (r.compact v).quantities, (p.offset == 0) = true := by
  have hall : List.Forall₂ (fun _ p => (p.offset == 0) = true) v.quantities
      (r.compact v).quantities := by
    refine compact_forall₂ hfits hv (fun q hq => ?_) fun old new factor h q hq p hp => ?_
    · obtain ⟨-, -, -, heq⟩ := UnitTable.quantity?_eq_some (hv q hq)
      rwa [heq]
    · obtain ⟨current, entry, hexchange, -⟩ := h.exchange hfamilies
      obtain ⟨-, -, -, heq⟩ := UnitTable.quantity?_eq_some hp
      rw [heq]
      exact offset_of_not_gainsOffset h hexchange hgains
  intro p hp
  obtain ⟨-, -, hzero⟩ := exists_of_forall₂ hall p hp
  exact hzero

theorem compact_sameSi (hfamilies : r.table.Families) (hfits : units.Fits)
    (hv : MadeIn r.table units v) (hunits : (r.table.offsetOf units == 0) = true)
    (hgains : ¬r.GainsOffset v) :
    List.Forall₂ (SameSi r.table) v.quantities (r.compact v).quantities := by
  refine compact_forall₂ hfits hv (fun q _ => .inl rfl) fun old new factor h q hq p hp => ?_
  obtain ⟨current, entry, hexchange, rfl⟩ := h.exchange hfamilies
  obtain ⟨-, -, hq, -⟩ := UnitTable.quantity?_eq_some (hv q hq)
  obtain ⟨-, hmagnitude, hp, -⟩ := UnitTable.quantity?_eq_some hp
  refine .inr ⟨old, new, current, entry, hexchange.lookup_old, hexchange.lookup_new, ?_,
    hmagnitude, fun x => ?_⟩
  · rw [hp, hq]
  · rw [hp, hq]
    exact hexchange.exactSi hunits (offset_of_not_gainsOffset h hexchange hgains) x

/-- A value in units of a table is shown with another prefix without any change to it, but for an
offset that it may gain. -/
theorem keepsQuantity_of_build (hbuild : UnitTable.build definitions = .ok r.table)
    (hfits : units.Fits) (hv : MadeIn r.table units v) : r.KeepsQuantity v := by
  have hfamilies := UnitTable.build_families hbuild
  refine ⟨r.compact_isArray v, compact_dimension hfamilies hfits hv,
    fun first hfirst hoffset => ⟨fun hzero hgains => ?_, fun hgains => ?_⟩,
    fun first hfirst hoffset hgains => ?_⟩
  · obtain ⟨p, hp, hgained⟩ := offset_of_gainsOffset hbuild hfits hv hgains
    rw [hzero p hp] at hgained
    cases hgained
  · exact compact_offset hfamilies hfits hv (offset_of_madeIn hv hfirst hoffset) hgains
  · exact compact_sameSi hfamilies hfits hv (offset_of_madeIn hv hfirst hoffset) hgains

/-- A length that takes prefixes. -/
def metres : List UnitDefinition := [{ name := "m", prefixes := .metric }, { name := "s" }]

/-- Five thousand metres are five kilometres. -/
theorem keepsQuantity_metres : ∃ t q, UnitTable.build metres = .ok t ∧
    t.quantity? 5000 (.unit "m") = some q ∧
    ((Rendering.mk t {}).compact (.array [q])).quantities.map
      (fun p => (p.magnitude, p.units)) = [(5, .unit "km")] ∧
    (Rendering.mk t {}).KeepsQuantity (.array [q]) := by
  have hvalues : (UnitTable.build metres).toOption.bind (fun t =>
      (t.quantity? 5000 (.unit "m")).map fun q =>
        (q.magnitude, ((Rendering.mk t {}).compact (.array [q])).quantities.map
          fun p => (p.magnitude, p.units))) = some (5000, [(5, .unit "km")]) := by
    decide +kernel
  cases h : UnitTable.build metres with
  | error faults =>
      rw [h] at hvalues
      cases hvalues
  | ok t =>
      rw [h] at hvalues
      obtain ⟨q, hq, hpair⟩ := Option.map_eq_some_iff.1 hvalues
      obtain ⟨hmagnitude, hcompact⟩ := Prod.mk.inj hpair
      refine ⟨t, q, rfl, hq, hcompact, keepsQuantity_of_build h (UnitProduct.fits_unit "m") ?_⟩
      intro p hp
      obtain rfl : p = q := List.mem_singleton.1 hp
      rw [hmagnitude]
      exact hq

/-- A temperature, and one that counts from another zero and takes prefixes. -/
def degrees : List UnitDefinition :=
  [{ name := "K" },
    { name := "degC", equation := some "K", offset := 273.15, prefixes := .engineering }]

/-- A difference of five thousand thousandths of a degree is shown as a temperature. -/
theorem gainsOffset_degrees : ∃ t q, UnitTable.build degrees = .ok t ∧
    t.quantity? 5000 (.unit "mdegC") = some q ∧ q.offset = 0 ∧ q.toSi = 5 ∧
    ((Rendering.mk t {}).compact (.scalar q)).quantities.map
      (fun p => (p.units, p.offset, p.toSi)) = [(.unit "degC", 273.15, 278.15)] := by
  have hvalues : (UnitTable.build degrees).toOption.bind (fun t =>
      (t.quantity? 5000 (.unit "mdegC")).map fun q =>
        ((q.offset, q.toSi), ((Rendering.mk t {}).compact (.scalar q)).quantities.map
          fun p => (p.units, p.offset, p.toSi))) =
      some ((0, 5), [(.unit "degC", 273.15, 278.15)]) := by
    decide +kernel
  cases h : UnitTable.build degrees with
  | error faults =>
      rw [h] at hvalues
      cases hvalues
  | ok t =>
      rw [h] at hvalues
      obtain ⟨q, hq, hpair⟩ := Option.map_eq_some_iff.1 hvalues
      obtain ⟨hsource, hcompact⟩ := Prod.mk.inj hpair
      obtain ⟨hoffset, hsi⟩ := Prod.mk.inj hsource
      exact ⟨t, q, rfl, hq, hoffset, hsi, hcompact⟩

end Rendering

end Worksheet
