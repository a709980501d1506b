import Worksheet.Proofs.UnitTable.Integrity
import Worksheet.UnitTable.Standard
/-!
# The dimension that a quantity carries along

A quantity keeps its dimension beside its units, and arithmetic changes both without the unit table.
They never come apart: the dimension stays the one that the table derives from the units.
-/

namespace Worksheet

namespace Quantity

open UnitTable

variable {bases : String → Prop} {t : UnitTable} {q r p : Quantity}

/-- The dimension, a product of base units, is the exact sum of what the units measure. -/
structure Coherent (bases : String → Prop) (t : UnitTable) (q : Quantity) : Prop where
  known : q.units.Over fun s => t.isUnit s
  base : q.dimension.Over (t.IsBase bases)
  derived : ∀ b, bases b → q.dimension.get b = q.units.total fun s => (t.dimensionOf s).get b

namespace Coherent

/-- Nothing counts but the units and the dimension. -/
theorem congr (hq : q.Coherent bases t) (hunits : p.units = q.units)
    (hdimension : p.dimension = q.dimension) : p.Coherent bases t where
  known := hunits ▸ hq.known
  base := hdimension ▸ hq.base
  derived b hb := by
    rw [hunits, hdimension]
    exact hq.derived b hb

theorem withMagnitude (hq : q.Coherent bases t) (x : Float) :
    (q.withMagnitude x).Coherent bases t :=
  hq.congr rfl rfl

theorem quantity? (ht : t.Integrity bases) {x : Float} {units : UnitProduct}
    (h : t.quantity? x units = some q) : q.Coherent bases t := by
  obtain ⟨hmeasure, -, rfl, -⟩ := quantity?_eq_some h
  exact ⟨measure?_isUnit hmeasure, ht.measure? hmeasure, fun b _ => measure?_get hmeasure b⟩

/-- Every base unit measures itself, so a dimension taken for units measures what it is. -/
theorem toBase (ht : t.Integrity bases) (hq : q.Coherent bases t) :
    q.toBase.Coherent bases t where
  known f hf := ht.isUnit_of_isBase (hq.base f hf)
  base := hq.base
  derived b _ := by
    rw [toBase_dimension, toBase_units, UnitProduct.get_eq_total]
    refine Factors.total_congr fun f hf => ?_
    obtain ⟨-, entry, hentry, hdimension⟩ := hq.base f hf
    rw [dimensionOf_eq (ht.lookup_of_entry hentry), hdimension, UnitProduct.get_unit]

theorem withoutOffset (ht : t.Integrity bases) (hq : q.Coherent bases t) :
    q.withoutOffset.Coherent bases t := by
  rcases q.withoutOffset_cases with h | h
  · rw [h]
    exact hq
  · rw [h]
    exact hq.toBase ht

theorem add? (hq : q.Coherent bases t) (h : q.add? r = some p) : p.Coherent bases t := by
  obtain ⟨-, rfl⟩ := add?_eq_some h
  exact hq.withMagnitude _

theorem sub? (hq : q.Coherent bases t) (h : q.sub? r = some p) : p.Coherent bases t := by
  obtain ⟨-, rfl⟩ := sub?_eq_some h
  exact hq.withMagnitude _

theorem convertTo? (hr : r.Coherent bases t) (h : q.convertTo? r = some p) :
    p.Coherent bases t := by
  obtain ⟨-, rfl⟩ := convertTo?_eq_some h
  exact hr.withMagnitude _

theorem mul? (ht : t.Integrity bases) (hq : q.Coherent bases t) (hr : r.Coherent bases t)
    (h : q.mul? r = some p) : p.Coherent bases t := by
  rcases mul?_eq_some h with ⟨-, rfl⟩ | ⟨-, rfl⟩ | ⟨-, -, hunits, hdimension, -⟩
  · exact hr.withMagnitude _
  · exact hq.withMagnitude _
  · have hq' := hq.withoutOffset ht
    have hr' := hr.withoutOffset ht
    refine ⟨hq'.known.mul? hr'.known hunits, hq'.base.mul? hr'.base hdimension, fun b hb => ?_⟩
    rw [UnitProduct.get_mul? hdimension, UnitProduct.total_mul? hunits, hq'.derived b hb,
      hr'.derived b hb]

theorem div? (ht : t.Integrity bases) (hq : q.Coherent bases t) (hr : r.Coherent bases t)
    (h : q.div? r = some p) : p.Coherent bases t := by
  rcases div?_eq_some h with ⟨-, rfl⟩ | ⟨-, hunits, hdimension, -⟩
  · exact hq.withMagnitude _
  · have hq' := hq.withoutOffset ht
    have hr' := hr.withoutOffset ht
    refine ⟨hq'.known.div? hr'.known hunits, hq'.base.div? hr'.base hdimension, fun b hb => ?_⟩
    rw [UnitProduct.get_div? hdimension, UnitProduct.total_div? hunits, hq'.derived b hb,
      hr'.derived b hb]

end Coherent

/-- With any definitions that make a table, what the table makes is coherent, and arithmetic keeps
it so. -/
theorem coherent_of_build {definitions : List UnitDefinition}
    (hbuild : build definitions = .ok t) :
    let coherent := Coherent (BaseName definitions) t
    (∀ x units q, t.quantity? x units = some q → coherent q) ∧
    (∀ q, coherent q → coherent q.neg ∧ coherent q.toBase ∧ ∀ x, coherent (q.withMagnitude x)) ∧
    ∀ q r p, coherent q → coherent r →
      q.add? r = some p ∨ q.sub? r = some p ∨ q.mul? r = some p ∨ q.div? r = some p ∨
        q.convertTo? r = some p → coherent p := by
  intro coherent
  have ht := build_integrity hbuild
  refine ⟨fun x units q => Coherent.quantity? ht, fun q hq => ?_, fun q r p hq hr h => ?_⟩
  · exact ⟨hq.withMagnitude _, hq.toBase ht, hq.withMagnitude⟩
  · rcases h with h | h | h | h | h
    · exact hq.add? h
    · exact hq.sub? h
    · exact hq.mul? ht hr h
    · exact hq.div? ht hr h
    · exact hr.convertTo? h

/-- A length, a time, and a multiple of the time. -/
def motionUnits : List UnitDefinition :=
  [.base "m" .metric [], .base "s" .engineering [], .derived "h" "s" 3600 .none ["hour"]]

/-- Three kilometers in two hours come to a speed, and its dimension is that of its units. -/
theorem coherent_speed :
    ∃ t way time speed, build motionUnits = .ok t ∧ t.quantity? 3 (.unit "km") = some way ∧
      t.quantity? 2 (.unit "hour") = some time ∧ way.div? time = some speed ∧
      speed.Coherent (BaseName motionUnits) t := by
  have hrun : ((build motionUnits).toOption.bind fun t => do
      let way ← t.quantity? 3 (.unit "km")
      let time ← t.quantity? 2 (.unit "hour")
      way.div? time).isSome := by
    decide +kernel
  obtain ⟨speed, hspeed⟩ := Option.isSome_iff_exists.1 hrun
  obtain ⟨t, ht, hspeed⟩ := Option.bind_eq_some_iff.1 hspeed
  obtain ⟨way, hway, hspeed⟩ := Option.bind_eq_some_iff.1 hspeed
  obtain ⟨time, htime, hspeed⟩ := Option.bind_eq_some_iff.1 hspeed
  have hbuild : build motionUnits = .ok t := by
    cases hcase : build motionUnits with
    | error faults =>
        rw [hcase] at ht
        cases ht
    | ok t' =>
        rw [hcase] at ht
        cases ht
        rfl
  obtain ⟨hmade, -, hops⟩ := coherent_of_build hbuild
  exact ⟨t, way, time, speed, hbuild, hway, htime, hspeed,
    hops way time speed (hmade _ _ way hway) (hmade _ _ time htime)
      (.inr (.inr (.inr (.inl hspeed))))⟩

end Quantity

end Worksheet
