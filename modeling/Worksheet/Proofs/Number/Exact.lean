import Mathlib
import Worksheet.Proofs.Number.Finite
/-!
# Exact values of floats

The rational number that a finite float stands for, and what keeps it from being zero: a product or
a quotient that is neither zero nor infinite has factors that are neither.
-/

namespace Worksheet.Number

open Float.Model UnpackedFloat

/-- The number that a sign, a significand and an exponent stand for. -/
def Binary.value (b : Binary) : ℚ :=
  (if b.negative then -1 else 1) * b.significand * (2 : ℚ) ^ b.exponent

/-- The exact value of a float, which is taken to be zero for one that is not finite. -/
def exactValue (x : Float) : ℚ := ((Binary.ofFloat? x).map Binary.value).getD 0

variable {x y : Float}

@[simp] theorem exactValue_one : exactValue 1 = 1 := by
  have hone : Binary.ofFloat? 1 = some ⟨false, 2 ^ 52, -52⟩ := by decide +kernel
  norm_num [exactValue, hone, Binary.value]

/-- Both zeros have the value zero. -/
theorem exactValue_of_eq_zero (h : (x == 0) = true) : exactValue x = 0 := by
  have hzero : Binary.ofFloat? 0 = some ⟨false, 0, -1074⟩ := by decide +kernel
  have hminus : Binary.ofFloat? (-0) = some ⟨true, 0, -1074⟩ := by decide +kernel
  obtain ⟨-, -, rfl | ⟨rfl, -⟩ | ⟨rfl, -⟩⟩ := Float.beq_iff_ne_nan_and_eq.1 h
  · simp [exactValue, hzero, Binary.value]
  · simp [exactValue, hzero, Binary.value]
  · simp [exactValue, hminus, Binary.value]

/-! ## Numbers other than zero -/

/-- Neither zero nor infinite nor no number. -/
def isRegular : UnpackedFloat → Bool
  | .finite .. => true
  | _ => false

theorem isRegular_pack {u : UnpackedFloat} (h : isRegular u = false) :
    isRegular (Float.Model.pack u).unpack = false := by
  cases u with
  | notANumber => rfl
  | infinity s => cases s <;> rfl
  | zero s => cases s <;> rfl
  | finite s m e hm => cases h

theorem not_isRegular_of_zero (h : x.toBits.toNat = 0 ∨ x.toBits.toNat = 2 ^ 63) :
    isRegular x.toModel.unpack = false := by
  have hzero : (0 : Float).toBits.toNat = 0 := by decide +kernel
  have hminus : (-0 : Float).toBits.toNat = 2 ^ 63 := by decide +kernel
  rcases h with h | h
  · obtain rfl : x = 0 := Float.toBits_inj.1 (UInt64.toNat_inj.1 (h.trans hzero.symm))
    decide +kernel
  · obtain rfl : x = -0 := Float.toBits_inj.1 (UInt64.toNat_inj.1 (h.trans hminus.symm))
    decide +kernel

theorem exactValue_ne_zero (h : isRegular x.toModel.unpack) : exactValue x ≠ 0 := by
  have hfinite : x.isFinite = true := by
    change x.toModel.unpack.isFinite = true
    cases hunpack : x.toModel.unpack with
    | finite s m e hm => rfl
    | _ =>
      rw [hunpack] at h
      cases h
  obtain ⟨b, hb⟩ := ofFloat?_of_isFinite hfinite
  have hsignificand : b.significand ≠ 0 := by
    have hbits : x.toBits.toNat < 2 ^ 64 := x.toBits.toNat_lt
    have hleading : leadingBit = 2 ^ 52 := rfl
    unfold Binary.ofFloat? at hb
    rw [hleading] at hb
    dsimp only at hb
    split at hb
    · cases hb
    · split at hb
      · rename_i hbiased
        cases hb
        intro hfraction
        dsimp only at hfraction
        rw [not_isRegular_of_zero (by omega)] at h
        cases h
      · cases hb
        exact Nat.ne_of_gt (Nat.add_pos_right _ (by decide))
  have hsign : (if b.negative then (-1 : ℚ) else 1) ≠ 0 := by
    split <;> norm_num
  rw [exactValue, hb, Option.map_some, Option.getD_some, Binary.value]
  exact mul_ne_zero (mul_ne_zero hsign (Nat.cast_ne_zero.2 hsignificand))
    (zpow_ne_zero _ two_ne_zero)

/-- A product that is regular has regular factors. -/
theorem isRegular_of_mul (h : isRegular (x * y).toModel.unpack) :
    isRegular x.toModel.unpack ∧ isRegular y.toModel.unpack := by
  have hmul : isRegular (UnpackedFloat.mul Format.binary64 x.toModel.unpack y.toModel.unpack) := by
    by_contra hnot
    exact absurd h (by rw [Bool.not_eq_true]; exact isRegular_pack (Bool.eq_false_iff.2 hnot))
  cases hx : x.toModel.unpack <;> cases hy : y.toModel.unpack <;> rw [hx, hy] at hmul <;>
    first | exact ⟨rfl, rfl⟩ | cases hmul

theorem isRegular_of_div (h : isRegular (x / y).toModel.unpack) :
    isRegular x.toModel.unpack ∧ isRegular y.toModel.unpack := by
  have hdiv : isRegular (UnpackedFloat.div Format.binary64 x.toModel.unpack y.toModel.unpack) := by
    by_contra hnot
    exact absurd h (by rw [Bool.not_eq_true]; exact isRegular_pack (Bool.eq_false_iff.2 hnot))
  cases hx : x.toModel.unpack <;> cases hy : y.toModel.unpack <;> rw [hx, hy] at hdiv <;>
    first | exact ⟨rfl, rfl⟩ | cases hdiv

/-- What lies between two positive floats is not zero. -/
theorem isRegular_of_between {low high : Float} (hlow : isPositive low.toModel.unpack)
    (hhigh : isPositive high.toModel.unpack) (h : low ≤ x) (h' : x < high) :
    isRegular x.toModel.unpack := by
  obtain ⟨m, e, hm, hlow⟩ := eq_finite_of_isPositive hlow
  obtain ⟨m', e', hm', hhigh⟩ := eq_finite_of_isPositive hhigh
  have hle : low.toModel.unpack.le x.toModel.unpack = true := of_decide_eq_true h
  have hlt : x.toModel.unpack.lt high.toModel.unpack = true := of_decide_eq_true h'
  rw [hlow] at hle
  rw [hhigh] at hlt
  cases hunpack : x.toModel.unpack with
  | notANumber =>
    rw [hunpack] at hle
    cases hle
  | infinity s =>
    rw [hunpack] at hle hlt
    cases s
    · cases hle
    · cases hlt
  | zero s =>
    rw [hunpack] at hle
    cases hle
  | finite s m e hm => rfl

/-! ## One -/

/-- A whole number times a power of two that comes to one is the opposite power. -/
theorem eq_pow_of_mul_zpow {n : Nat} {e : Int} (h : (n : ℚ) * (2 : ℚ) ^ e = 1) :
    ∃ k : Nat, e = -k ∧ n = 2 ^ k := by
  obtain ⟨k, rfl | rfl⟩ := e.eq_nat_or_neg
  · have hnat : n * 2 ^ k = 1 := by
      rw [zpow_natCast] at h
      exact_mod_cast h
    obtain ⟨hn, hk⟩ := mul_eq_one.1 hnat
    have hzero : k = 0 := by simpa using hk
    exact ⟨0, by simp [hzero], by simpa using hn⟩
  · refine ⟨k, rfl, ?_⟩
    rw [zpow_neg, zpow_natCast, mul_inv_eq_one₀ (by positivity)] at h
    exact_mod_cast h

/-- No other float has the value one. -/
theorem eq_one_of_exactValue (h : exactValue x = 1) : x = 1 := by
  have hbits : x.toBits.toNat < 2 ^ 64 := x.toBits.toNat_lt
  have hsign : signBit = 2 ^ 63 := rfl
  have hleading : leadingBit = 2 ^ 52 := rfl
  cases hb : Binary.ofFloat? x with
  | none => simp [exactValue, hb] at h
  | some b =>
    rw [exactValue, hb, Option.map_some, Option.getD_some, Binary.value] at h
    have hpositive : b.negative = false := by
      by_contra hnegative
      have hnonneg : 0 ≤ (b.significand : ℚ) * (2 : ℚ) ^ b.exponent := by positivity
      rw [if_pos (by simpa using hnegative)] at h
      linarith
    rw [hpositive, if_neg Bool.false_ne_true, one_mul] at h
    obtain ⟨k, hexponent, hsignificand⟩ := eq_pow_of_mul_zpow h
    unfold Binary.ofFloat? at hb
    rw [hsign, hleading] at hb
    dsimp only at hb
    split at hb
    · cases hb
    · split at hb
      · -- a significand of that size is written with its leading bit
        cases hb
        dsimp only at hexponent hsignificand
        have hsmall : x.toBits.toNat % 2 ^ 52 < 2 ^ k :=
          calc x.toBits.toNat % 2 ^ 52 < 2 ^ 52 := Nat.mod_lt _ (by decide)
            _ ≤ 2 ^ k := Nat.pow_le_pow_right (by decide) (by omega)
        exact absurd hsignificand hsmall.ne
      · cases hb
        dsimp only at hpositive hexponent hsignificand
        have hlow : 2 ^ 52 ≤ 2 ^ k := by omega
        have hhigh : 2 ^ k < 2 ^ 53 := by omega
        have hk : k = 52 := by
          have hle := (Nat.pow_le_pow_iff_right (by decide)).1 hlow
          have hlt := (Nat.pow_lt_pow_iff_right (by decide)).1 hhigh
          omega
        subst hk
        have hone : x.toBits.toNat = (1 : Float).toBits.toNat := by
          have hvalue : (1 : Float).toBits.toNat = 1023 * 2 ^ 52 := by decide +kernel
          rw [decide_eq_false_iff_not] at hpositive
          rw [hvalue]
          omega
        exact Float.toBits_inj.1 (UInt64.toNat_inj.1 hone)

end Worksheet.Number
