import Worksheet.Proofs.Evaluation.Invariant
import Worksheet.Proofs.Except
import Worksheet.Proofs.Rendering.Prefixes
import Worksheet.Proofs.UnitTable.Integrity
/-!
# Quantities in known units

All units that come up in an evaluation are in the table, and so are all units that a result is
shown in; dimensions are products of base units.
-/

namespace Worksheet

variable {t : UnitTable} {bases : String → Prop} {q r p : Quantity}

/-- The units are in the table, and the dimension is a product of base units. -/
structure Quantity.Known (bases : String → Prop) (t : UnitTable) (q : Quantity) : Prop where
  units : q.units.Over fun s => t.isUnit s
  dimension : q.dimension.Over (t.IsBase bases)

namespace Quantity

theorem Known.toBase (ht : t.Integrity bases) (hq : q.Known bases t) : q.toBase.Known bases t :=
  ⟨hq.dimension.mono fun _ => ht.isUnit_of_isBase, hq.dimension⟩

theorem known_withoutOffset (ht : t.Integrity bases) (hq : q.Known bases t) :
    q.withoutOffset.Known bases t := by
  rcases q.withoutOffset_cases with h | h
  · rw [h]
    exact hq
  · rw [h]
    exact hq.toBase ht

theorem known_of_quantity? (ht : t.Integrity bases) {x : Float} {units : UnitProduct}
    (h : t.quantity? x units = some q) : q.Known bases t := by
  obtain ⟨hmeasure, -, rfl, -⟩ := UnitTable.quantity?_eq_some h
  exact ⟨UnitTable.measure?_isUnit hmeasure, ht.measure? hmeasure⟩

theorem invariant_known (ht : t.Integrity bases) :
    Quantity.Invariant t (Quantity.Known bases t) where
  number _ := ⟨UnitProduct.over_one, UnitProduct.over_one⟩
  unit _ h := known_of_quantity? ht h
  withMagnitude _ _ hq := ⟨hq.units, hq.dimension⟩
  toBase hq := hq.toBase ht
  mul := by
    intro q r p hq hr h
    rcases mul?_eq_some h with ⟨-, rfl⟩ | ⟨-, rfl⟩ | ⟨-, -, hunits, hdimension, -⟩
    · exact ⟨hr.units, hr.dimension⟩
    · exact ⟨hq.units, hq.dimension⟩
    · have hq' := known_withoutOffset ht hq
      have hr' := known_withoutOffset ht hr
      exact ⟨hq'.units.mul? hr'.units hunits, hq'.dimension.mul? hr'.dimension hdimension⟩
  div := by
    intro q r p hq hr h
    rcases div?_eq_some h with ⟨-, rfl⟩ | ⟨-, hunits, hdimension, -⟩
    · exact ⟨hq.units, hq.dimension⟩
    · have hq' := known_withoutOffset ht hq
      have hr' := known_withoutOffset ht hr
      exact ⟨hq'.units.div? hr'.units hunits, hq'.dimension.div? hr'.dimension hdimension⟩
  pow := by
    intro q p x hq h
    obtain ⟨hunits, hdimension, -⟩ := pow?_eq_some h
    have hq' := known_withoutOffset ht hq
    exact ⟨hq'.units.scale? hunits, hq'.dimension.scale? hdimension⟩

end Quantity

namespace Value

variable {P : Quantity → Prop} {v w : Value}

theorem forall_of_mapM {ε : Type} {f : Quantity → Except ε Quantity} {qs ps : List Quantity}
    (hf : ∀ q p, f q = .ok p → P p) (h : qs.mapM f = .ok ps) : ∀ p ∈ ps, P p := by
  induction qs generalizing ps with
  | nil =>
      cases h
      exact fun q hq => absurd hq List.not_mem_nil
  | cons q qs ih =>
      rw [List.mapM_cons] at h
      obtain ⟨p, hp, h⟩ := bind_eq_ok.1 h
      obtain ⟨rest, hrest, h⟩ := bind_eq_ok.1 h
      cases h
      exact List.forall_mem_cons.2 ⟨hf q p hp, ih hrest⟩

/-- What a conversion of all quantities gives has the property if each conversion gives it. -/
theorem all_of_mapM {ε : Type} {f : Quantity → Except ε Quantity}
    (hf : ∀ q p, f q = .ok p → P p) (h : v.mapM f = .ok w) : w.All P := by
  cases v with
  | scalar q =>
      obtain ⟨p, hp, h⟩ := bind_eq_ok.1 h
      cases h
      exact all_scalar.2 (hf q p hp)
  | array qs =>
      obtain ⟨ps, hps, h⟩ := bind_eq_ok.1 h
      cases h
      exact all_array.2 (forall_of_mapM hf hps)

end Value

namespace Rendering

theorem compact_known {r : Rendering} (ht : r.table.Integrity bases) {v : Value}
    (hv : v.All (Quantity.Known bases r.table)) :
    (r.compact v).All (Quantity.Known bases r.table) := by
  rcases r.compact_cases v with h | ⟨units, old, new, factor, h⟩
  · rw [h]
    exact hv
  · rw [compact_of_respells h]
    refine hv.map fun q hq => ?_
    rcases r.respell_cases ((units.div (.unit old)).mul (.unit new)) factor q with hkept | hmade
    · rw [hkept]
      exact hq
    · exact Quantity.known_of_quantity? ht hmade

end Rendering

end Worksheet
