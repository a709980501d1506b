import Worksheet.Proofs.UnitTable.Dimensions
import Worksheet.Proofs.UnitTable.Scale
import Worksheet.Proofs.UnitTable.Turns
/-!
# Quantities in base units

A quantity in base units is written without a scale and an offset, whatever scale and offset the
base units are defined with. The table reads it as it is meant if they have none.
-/

namespace Worksheet

open UnitTable Number

variable {t : UnitTable} {definitions : List UnitDefinition} {q : Quantity}

namespace Quantity

/-- The table makes of the base units what the quantity means by them: the same dimension, offset
and exact scale, so that a magnitude in these units is its own value. -/
structure BaseAgrees (t : UnitTable) (q : Quantity) : Prop where
  quantity : ∃ p, t.quantity? q.toBase.magnitude q.toBase.units = some p ∧
    p.dimension = q.toBase.dimension ∧ (p.offset == q.toBase.offset) = true
  scale : t.exactScale q.toBase.units = exactValue q.toBase.scale
  value : ∀ x : ℚ, t.exactSi x q.toBase.units = x

end Quantity

namespace UnitTable

/-- A base unit without a scale or an offset. -/
def IsPlain (t : UnitTable) (symbol : String) : Prop :=
  ∃ entry, t.lookup symbol = some entry ∧ entry.scale = 1 ∧ (entry.offset == 0) = true

theorem isPlain_of_isBase (hbuild : build definitions = .ok t)
    (hplain : ∀ definition ∈ definitions, definition.equation = none →
      definition.scale = 1 ∧ (definition.offset == 0) = true)
    {symbol : String} (h : t.IsBase (BaseName definitions) symbol) : t.IsPlain symbol := by
  obtain ⟨⟨definition, hmem, hequation, rfl⟩, -⟩ := h
  exact ⟨_, lookup_base hbuild hmem hequation, hplain definition hmem hequation⟩

theorem offsetOf_plain {units : UnitProduct} (h : units.Over t.IsPlain) :
    (t.offsetOf units == 0) = true := by
  unfold offsetOf
  split
  · rename_i symbol hfactors
    obtain ⟨entry, hentry, -, hoffset⟩ := h (symbol, 1) (by simp [hfactors])
    rw [hentry]
    exact hoffset
  · decide

theorem exactScale_plain {units : UnitProduct} (h : units.Over t.IsPlain) :
    t.exactScale units = 1 := by
  refine Factors.value_eq_one fun f hf => ?_
  obtain ⟨entry, hentry, hscale, -⟩ := h f hf
  rw [exactScaleOf_eq hentry, hscale, exactValue_one]

end UnitTable

namespace Quantity

/-- All quantities of a table are meant as they are written in base units exactly if no base unit is
defined with a scale or an offset. -/
theorem baseAgrees_iff (hbuild : build definitions = .ok t) :
    (∀ x units q, t.quantity? x units = some q → q.BaseAgrees t) ↔
      ∀ definition ∈ definitions, definition.equation = none →
        definition.scale = 1 ∧ (definition.offset == 0) = true := by
  have ht := build_integrity hbuild
  constructor
  · intro h definition hmem hequation
    have hlookup := lookup_base hbuild hmem hequation
    have hmeasure := measure?_unit hlookup (UnitProduct.normal_unit definition.name)
    have hquantity : t.quantity? 1 (.unit definition.name) = some
        ⟨1, .unit definition.name, .unit definition.name,
          1 * Number.power definition.scale 1, t.offsetOf (.unit definition.name)⟩ := by
      simp only [UnitTable.quantity?, hmeasure]
      rfl
    obtain ⟨⟨p, hp, -, hoffset⟩, hscale, -⟩ := h _ _ _ hquantity
    constructor
    · have hvalue : exactValue definition.scale = exactValue 1 :=
        (exactScale_unit hlookup).symm.trans hscale
      exact eq_one_of_exactValue (hvalue.trans exactValue_one)
    · obtain ⟨-, -, -, hp⟩ := quantity?_eq_some hp
      have hunit : p.offset = definition.offset := hp.trans (offsetOf_unit hlookup)
      rwa [hunit] at hoffset
  · intro hplain x units q hq
    obtain ⟨hmeasure, -⟩ := quantity?_eq_some hq
    have hbases := ht.measure? hmeasure
    have hover : q.dimension.Over t.IsPlain :=
      hbases.mono fun s => isPlain_of_isBase hbuild hplain
    have hscale := exactScale_plain hover
    have hoffset := offsetOf_plain hover
    obtain ⟨scale, hbase⟩ := measure?_bases (measure?_normal hmeasure)
      (hbases.mono fun s => IsBase.measuresItself ht)
    refine ⟨⟨⟨q.toSi, q.dimension, q.dimension, scale, t.offsetOf q.dimension⟩, ?_, rfl, hoffset⟩,
      hscale.trans exactValue_one.symm, fun x => ?_⟩
    · simp only [toBase, UnitTable.quantity?, hbase]
      rfl
    · exact (exactSi_of_offset hoffset x).trans (by rw [hscale, mul_one])

/-- A length and a speed, which is written in multiples of the base units. -/
def speeds : List UnitDefinition :=
  [{ name := "m" }, { name := "s" }, { name := "kmh", equation := some "m/s", scale := 0.25 }]

theorem baseAgrees_speeds : ∃ t, build speeds = .ok t ∧
    ∃ q, t.quantity? 8 (.unit "kmh") = some q ∧ q.BaseAgrees t := by
  have hquantity : (build speeds).toOption.map (fun t => (t.quantity? 8 (.unit "kmh")).isSome) =
      some true := by decide +kernel
  cases h : build speeds with
  | error faults =>
      rw [h] at hquantity
      cases hquantity
  | ok t =>
      rw [h] at hquantity
      obtain ⟨q, hq⟩ := Option.isSome_iff_exists.1 (Option.some.inj hquantity)
      refine ⟨t, rfl, q, hq, (baseAgrees_iff h).2 ?_ 8 _ q hq⟩
      have hplain : ∀ definition ∈ speeds, definition.equation = none →
          definition.scale = 1 ∧ (definition.offset == 0) = true := by decide
      exact hplain

/-- A base unit with a scale. -/
def doubled : List UnitDefinition := [{ name := "b", scale := 2 }]

/-- Three of it are six in base units, and six of it are twelve. -/
theorem not_baseAgrees_doubled : ∃ t q, build doubled = .ok t ∧
    t.quantity? 3 (.unit "b") = some q ∧ q.toBase = ⟨6, .unit "b", .unit "b", 1, 0⟩ ∧
    (t.quantity? 6 (.unit "b")).map toSi = some 12 ∧ ¬q.BaseAgrees t := by
  have hvalues : (build doubled).toOption.bind (fun t => (t.quantity? 3 (.unit "b")).map fun q =>
      (q.toBase, (t.quantity? 6 (.unit "b")).map toSi)) =
      some (⟨6, .unit "b", .unit "b", 1, 0⟩, some 12) := by decide +kernel
  cases h : build doubled with
  | error faults =>
      rw [h] at hvalues
      cases hvalues
  | ok t =>
      rw [h] at hvalues
      obtain ⟨q, hq, hpair⟩ := Option.map_eq_some_iff.1 hvalues
      obtain ⟨hbase, hsi⟩ := Prod.mk.inj hpair
      refine ⟨t, q, rfl, hq, hbase, hsi, fun hagrees => ?_⟩
      have hlookup : t.lookup "b" = some ⟨"b", "b", .unit "b", 2, 0⟩ :=
        lookup_base h List.mem_cons_self rfl
      have hscale := hagrees.scale
      rw [hbase] at hscale
      have hone : exactValue 2 = 1 :=
        (exactScale_unit hlookup).symm.trans (hscale.trans exactValue_one)
      exact absurd (eq_one_of_exactValue hone) (by decide)

end Quantity

end Worksheet
