import Worksheet.Proofs.Number.Exact
import Worksheet.Proofs.UnitProduct.Reduced
import Worksheet.UnitTable.Basic
import Mathlib.Tactic.FieldSimp
/-!
# Scales in exact arithmetic

What the units of a quantity make of its magnitude if nothing is rounded: the product of the scales
of all factors, each raised to its exponent.
-/

namespace Worksheet

namespace Factors

variable {ρ : String → ℚ} {fs : Factors} {symbol : String} {e : Int}

/-- The product of the values of all symbols, each raised to its exponent. -/
def value (ρ : String → ℚ) (fs : Factors) : ℚ := (fs.map fun f => ρ f.1 ^ f.2).prod

@[simp] theorem value_nil (ρ : String → ℚ) : value ρ [] = 1 := rfl

@[simp] theorem value_cons (ρ : String → ℚ) (f : String × Int) (fs : Factors) :
    value ρ (f :: fs) = ρ f.1 ^ f.2 * value ρ fs := by
  simp [value]

theorem value_eq_one (h : ∀ f ∈ fs, ρ f.1 = 1) : fs.value ρ = 1 := by
  induction fs with
  | nil => rfl
  | cons f fs ih =>
      rw [value_cons, h f List.mem_cons_self, one_zpow, one_mul,
        ih fun g hg => h g (List.mem_cons_of_mem f hg)]

theorem value_put (h : fs.Sorted) (hρ : ρ symbol ≠ 0) :
    (fs.put symbol e).value ρ = fs.value ρ * ρ symbol ^ (e - fs.exponent symbol) := by
  induction fs with
  | nil => simp [put]
  | cons f fs ih =>
      unfold put
      by_cases hlt : symbol < f.1
      · rw [if_pos hlt, h.exponent_of_lt hlt, value_cons, sub_zero, mul_comm]
      · rw [if_neg hlt]
        by_cases heq : symbol = f.1
        · rw [if_pos heq, exponent_cons, if_pos heq, value_cons, value_cons, zpow_sub₀ hρ, heq]
          have hpow : ρ f.1 ^ f.2 ≠ 0 := zpow_ne_zero _ (heq ▸ hρ)
          field_simp
        · rw [if_neg heq, exponent_cons, if_neg heq, value_cons, value_cons, ih h.tail, mul_assoc]

theorem value_drop (h : fs.Sorted) (hρ : ρ symbol ≠ 0) :
    (fs.drop symbol).value ρ = fs.value ρ * ρ symbol ^ (-fs.exponent symbol) := by
  induction fs with
  | nil => simp [drop]
  | cons f fs ih =>
      rw [drop_cons, exponent_cons]
      by_cases heq : f.1 = symbol
      · subst heq
        have hpow : ρ f.1 ^ f.2 ≠ 0 := zpow_ne_zero _ hρ
        rw [if_pos rfl, if_pos rfl, ih h.tail, h.exponent_head, neg_zero, zpow_zero, mul_one,
          value_cons, zpow_neg, mul_right_comm, mul_inv_cancel₀ hpow, one_mul]
      · rw [if_neg heq, if_neg (Ne.symm heq), value_cons, value_cons, ih h.tail, mul_assoc]

end Factors

namespace UnitProduct

variable {ρ : String → ℚ} {symbol : String}

/-- The product of the values of all symbols, each raised to its exponent. -/
def value (ρ : String → ℚ) (p : UnitProduct) : ℚ := p.factors.value ρ

theorem value_set (p : UnitProduct) (e : Int) (hρ : ρ symbol ≠ 0) :
    (p.set symbol e).value ρ = p.value ρ * ρ symbol ^ (e - p.get symbol) := by
  unfold set
  by_cases he : e = 0
  · rw [if_pos he, he, zero_sub]
    exact Factors.value_drop p.sorted hρ
  · rw [if_neg he]
    exact Factors.value_put p.sorted hρ

end UnitProduct

namespace UnitTable

variable {t : UnitTable} {symbol : String} {entry : UnitEntry} {units : UnitProduct}

/-- The scale of a unit as the number that it stands for; a unit that is not known counts as one. -/
def exactScaleOf (t : UnitTable) (symbol : String) : ℚ :=
  ((t.lookup symbol).map fun entry => Number.exactValue entry.scale).getD 1

theorem exactScaleOf_eq (h : t.lookup symbol = some entry) :
    t.exactScaleOf symbol = Number.exactValue entry.scale := by
  simp [exactScaleOf, h]

/-- The scale of a product in exact arithmetic. -/
def exactScale (t : UnitTable) (units : UnitProduct) : ℚ := units.value t.exactScaleOf

/-- What a magnitude in some units comes to in base units, in exact arithmetic. -/
def exactSi (t : UnitTable) (x : ℚ) (units : UnitProduct) : ℚ :=
  (x + Number.exactValue (t.offsetOf units)) * t.exactScale units

theorem exactSi_of_offset (h : (t.offsetOf units == 0) = true) (x : ℚ) :
    t.exactSi x units = x * t.exactScale units := by
  rw [exactSi, Number.exactValue_of_eq_zero h, add_zero]

theorem exactScale_unit (h : t.lookup symbol = some entry) :
    t.exactScale (.unit symbol) = Number.exactValue entry.scale := by
  have hfactors : (UnitProduct.unit symbol).factors = [(symbol, 1)] := rfl
  rw [exactScale, UnitProduct.value, hfactors, Factors.value_cons, Factors.value_nil, zpow_one,
    mul_one, exactScaleOf_eq h]

theorem offsetOf_unit (h : t.lookup symbol = some entry) :
    t.offsetOf (.unit symbol) = entry.offset := by
  have hfactors : (UnitProduct.unit symbol).factors = [(symbol, 1)] := rfl
  simp [offsetOf, hfactors, h]

end UnitTable

end Worksheet
