import Worksheet.Proofs.Document.Run
import Worksheet.Proofs.Quantity.Arithmetic
import Worksheet.Proofs.Quantity.Known
import Worksheet.Proofs.UnitTable.Standard
/-!
# Offsets of quantities

A quantity carries the offset of its units along. It goes wrong in one way only: a product, a
quotient or a power that leaves a single unit with an offset counts from zero all the same.
-/

namespace Worksheet

namespace Registry

/-- What is bound, functions apart. -/
def quantities (r : Registry) : List Quantity :=
  r.entries.flatMap fun e =>
    match e.binder with
    | .value v _ => v.quantities
    | .function _ => []

theorem all_iff_quantities {P : Quantity → Prop} {r : Registry} :
    r.All P ↔ ∀ q ∈ r.quantities, P q := by
  unfold Registry.All quantities
  constructor
  · intro h q hq
    obtain ⟨e, he, hq⟩ := List.mem_flatMap.1 hq
    cases hbinder : e.binder with
    | value v source => exact h e he v source hbinder q (by simpa [hbinder] using hq)
    | function f => simp [hbinder] at hq
  · intro h e he v source hbinder q hq
    exact h q (List.mem_flatMap.2 ⟨e, he, by simpa [hbinder] using hq⟩)

end Registry

namespace Quantity

/-- The quantity counts from where its units count from. -/
def OffsetAgrees (t : UnitTable) (q : Quantity) : Prop := q.offset = t.offsetOf q.units

instance (t : UnitTable) (q : Quantity) : Decidable (q.OffsetAgrees t) :=
  inferInstanceAs (Decidable (q.offset = t.offsetOf q.units))

/-- The quantity counts from zero in units that do not: it is a difference, but does not read as
one. -/
def IsDifference (t : UnitTable) (q : Quantity) : Prop := q.offset = 0 ∧ t.offsetOf q.units ≠ 0

variable {t : UnitTable} {q r p : Quantity}

/-- A quantity that has an offset has that of its units. -/
theorem invariant_offset (t : UnitTable) :
    Quantity.Invariant t fun q => q.offset = 0 ∨ q.OffsetAgrees t where
  number _ := .inl rfl
  unit := by
    intro text units q _ hq
    obtain ⟨-, -, rfl, hoffset⟩ := UnitTable.quantity?_eq_some hq
    exact .inr hoffset
  withMagnitude _ _ hq := hq
  toBase _ := .inl rfl
  mul := by
    intro q r p hq hr h
    rcases mul?_eq_some h with ⟨-, rfl⟩ | ⟨-, rfl⟩ | ⟨-, -, -, -, hoffset⟩
    · exact hr
    · exact hq
    · exact .inl hoffset
  div := by
    intro q r p hq hr h
    rcases div?_eq_some h with ⟨-, rfl⟩ | ⟨-, -, -, hoffset⟩
    · exact hq
    · exact .inl hoffset
  pow _ _ h := .inl (pow?_eq_some h).2.2

theorem offsetAgrees_iff (h : q.offset = 0 ∨ q.OffsetAgrees t) :
    q.OffsetAgrees t ↔ ¬q.IsDifference t := by
  unfold OffsetAgrees IsDifference at *
  constructor
  · rintro hagrees ⟨hzero, hunits⟩
    exact hunits (hagrees ▸ hzero)
  · intro hdifference
    rcases h with hzero | hagrees
    · by_cases hunits : t.offsetOf q.units = 0
      · rw [hzero, hunits]
      · exact absurd ⟨hzero, hunits⟩ hdifference
    · exact hagrees

/-- What counts from zero agrees with units that do. -/
theorem offsetAgrees_of_zero (h : q.offset = 0) : q.OffsetAgrees t ↔ t.offsetOf q.units = 0 := by
  unfold OffsetAgrees
  rw [h]
  exact eq_comm

/-- A product of two quantities with units reads right unless it is in a unit with an offset. -/
theorem mul?_offsetAgrees (hq : q.OffsetAgrees t) (hr : r.OffsetAgrees t)
    (h : q.mul? r = some p) :
    p.OffsetAgrees t ↔ q.isNumber ∨ r.isNumber ∨ t.offsetOf p.units = 0 := by
  rcases mul?_eq_some h with ⟨hnumber, rfl⟩ | ⟨hnumber, rfl⟩ | ⟨hqn, hrn, -, -, hoffset⟩
  · exact iff_of_true hr (.inl hnumber)
  · exact iff_of_true hq (.inr (.inl hnumber))
  · simp [offsetAgrees_of_zero hoffset, hqn, hrn]

theorem div?_offsetAgrees (hq : q.OffsetAgrees t) (h : q.div? r = some p) :
    p.OffsetAgrees t ↔ r.isNumber ∨ t.offsetOf p.units = 0 := by
  rcases div?_eq_some h with ⟨hnumber, rfl⟩ | ⟨hrn, -, -, hoffset⟩
  · exact iff_of_true hq (.inl hnumber)
  · simp [offsetAgrees_of_zero hoffset, hrn]

theorem pow?_offsetAgrees {power : Float} (h : q.pow? power = some p) :
    p.OffsetAgrees t ↔ t.offsetOf p.units = 0 :=
  offsetAgrees_of_zero (pow?_eq_some h).2.2

theorem anyMagnitude_offsetAgrees (t : UnitTable) : AnyMagnitude (OffsetAgrees t) :=
  fun _ _ hq => hq

theorem number_offsetAgrees (x : Float) : (Quantity.number x).OffsetAgrees t := rfl

theorem quantity?_offsetAgrees {x : Float} {units : UnitProduct}
    (h : t.quantity? x units = some q) : q.OffsetAgrees t := by
  obtain ⟨-, -, rfl, hoffset⟩ := UnitTable.quantity?_eq_some h
  exact hoffset

theorem offsetOf_eq_zero {units : UnitProduct}
    (h : units.Over fun s => ∀ entry, t.lookup s = some entry → entry.offset = 0) :
    t.offsetOf units = 0 := by
  unfold UnitTable.offsetOf
  split
  · rename_i symbol hfactors
    have hsymbol := h (symbol, 1) (by rw [hfactors]; exact List.mem_singleton.2 rfl)
    cases hentry : t.lookup symbol with
    | none => rfl
    | some entry => exact hsymbol entry hentry
  · rfl

/-- Base units count from zero. -/
theorem toBase_offsetAgrees (hq : q.Known UnitTable.StandardBase .standard) :
    q.toBase.OffsetAgrees .standard := by
  rw [offsetAgrees_of_zero (toBase_offset q)]
  exact offsetOf_eq_zero fun f hf _ => UnitTable.standard_offset_of_isBase (hq.dimension f hf)

/-- What arithmetic makes of quantities that count from where their units do. A product, a quotient
or a power is one of these exactly if it keeps the units of one side, beside a bare number, or has
come to units that count from zero; everything else is in any case. -/
structure OffsetLaws (t : UnitTable) : Prop where
  number (x : Float) : (Quantity.number x).OffsetAgrees t
  quantity (x : Float) (units : UnitProduct) (p : Quantity) :
    t.quantity? x units = some p → p.OffsetAgrees t
  withMagnitude (q : Quantity) (x : Float) : q.OffsetAgrees t → (q.withMagnitude x).OffsetAgrees t
  sum (q r p : Quantity) : q.OffsetAgrees t → q.add? r = some p ∨ q.sub? r = some p →
    p.OffsetAgrees t
  conversion (q target p : Quantity) : target.OffsetAgrees t → q.convertTo? target = some p →
    p.OffsetAgrees t
  array (qs : List Quantity) (v : Value) : (∀ q ∈ qs, q.OffsetAgrees t) →
    Value.ofElements qs = .ok v → v.All (OffsetAgrees t)
  product (q r p : Quantity) : q.OffsetAgrees t → r.OffsetAgrees t → q.mul? r = some p →
    (p.OffsetAgrees t ↔ q.isNumber ∨ r.isNumber ∨ t.offsetOf p.units = 0)
  quotient (q r p : Quantity) : q.OffsetAgrees t → q.div? r = some p →
    (p.OffsetAgrees t ↔ r.isNumber ∨ t.offsetOf p.units = 0)
  power (q p : Quantity) (exponent : Float) : q.pow? exponent = some p →
    (p.OffsetAgrees t ↔ t.offsetOf p.units = 0)

theorem offsetLaws (t : UnitTable) : OffsetLaws t where
  number := number_offsetAgrees
  quantity _ _ _ := quantity?_offsetAgrees
  withMagnitude := anyMagnitude_offsetAgrees t
  sum _ _ _ hq h := by
    rcases h with h | h
    · exact (anyMagnitude_offsetAgrees t).add hq h
    · exact (anyMagnitude_offsetAgrees t).sub hq h
  conversion _ _ _ htarget := (anyMagnitude_offsetAgrees t).convertTo htarget
  array _ _ hqs := (anyMagnitude_offsetAgrees t).ofElements hqs
  product _ _ _ hq hr := mul?_offsetAgrees hq hr
  quotient _ _ _ hq := div?_offsetAgrees hq
  power _ _ _ := pow?_offsetAgrees

/-- The offset is zero or that of the units, and base units have none. -/
theorem offset_of_known (h : q.offset = 0 ∨ q.OffsetAgrees .standard)
    (hq : q.Known UnitTable.StandardBase .standard) :
    (q.OffsetAgrees .standard ↔ ¬q.IsDifference .standard) ∧ q.toBase.OffsetAgrees .standard :=
  ⟨offsetAgrees_iff h, toBase_offsetAgrees hq⟩

end Quantity

namespace Document

open Quantity

/-- After any statements, whatever is bound or evaluated counts from where its units do, unless it
is a difference, and does so in base units in any case. Of all arithmetic only a product, a quotient
and a power can make a difference of quantities that are none. -/
theorem offsetAgrees_iff_not_isDifference (settings : Settings)
    (steps : List (String × Option String)) :
    let d := ((fresh settings).processEach steps).2
    let law := fun q : Quantity =>
      (q.OffsetAgrees .standard ↔ ¬q.IsDifference .standard) ∧ q.toBase.OffsetAgrees .standard
    d.registry.All law ∧
    (∀ (e : Expr) (v : Value), (e.eval d.environment).result.1 = .ok v → v.All law) ∧
    OffsetLaws .standard := by
  intro d law
  have htable : d.table = .standard := processEach_table (fresh settings) steps
  have hinvariant := (invariant_offset .standard).and
    (invariant_known UnitTable.standard_integrity)
  have hbound := processEach_all (d := fresh settings) hinvariant (fresh_all settings) steps
  refine ⟨?_, ?_, offsetLaws .standard⟩
  · intro e he v source hv q hq
    obtain ⟨hoffset, hknown⟩ := hbound e he v source hv q hq
    exact offset_of_known hoffset hknown
  · intro e v hv q hq
    rw [← htable] at hinvariant
    have hall := (e.eval_keeps (environment_invariant hinvariant (htable ▸ hbound))).2 v hv
    obtain ⟨hoffset, hknown⟩ := htable ▸ hall q hq
    exact offset_of_known hoffset hknown

/-- Two minutes of a heating rate of five degrees a minute. -/
def heating : String := "x := 5\\,\\mathrm\x7bdegC/min\x7d \\cdot 2\\,\\mathrm\x7bmin\x7d"

set_option maxRecDepth 100000 in
/-- The difference of temperatures is bound as ten degrees, and reads as a temperature. -/
theorem not_offsetAgrees_heating :
    ¬((fresh {}).processAll [heating]).2.registry.All (OffsetAgrees .standard) := by
  intro hall
  have hbound : ((fresh {}).processAll [heating]).2.registry.quantities.all
      (fun q => decide (q.OffsetAgrees .standard)) = false := by
    rw [fresh_eq_listed, UnitTable.standard_eq_listed]
    decide +kernel
  rw [Registry.all_iff_quantities] at hall
  rw [List.all_eq_true.2 fun q hq => decide_eq_true (hall q hq)] at hbound
  cases hbound

end Document

end Worksheet
