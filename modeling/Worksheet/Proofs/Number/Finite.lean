import Worksheet.Number.Decimal
import Mathlib.Algebra.Group.Nat.Defs
import Mathlib.Tactic.ByContra
/-!
# Finite floats

A float that is not finite has all bits of its exponent set. What decimal digits are read as is a
number, if perhaps an infinite one, and no bound but one that is no number is above all of them.
-/

namespace Worksheet.Number

open Float.Model UnpackedFloat

variable {x y bound : Float} {u : UnpackedFloat}

/-! ## Bits -/

theorem isFinite_unpack (b : BitVec Format.binary64.numBits) :
    (UnpackedFloat.unpack Format.binary64 b).isFinite = decide (unpackExponent b ≠ -1#11) := by
  unfold UnpackedFloat.unpack
  dsimp only
  by_cases hones : unpackExponent b = -1#11
  · rw [decide_eq_false (not_not.2 hones), if_pos hones, apply_ite UnpackedFloat.isFinite]
    exact ite_self _
  · rw [decide_eq_true hones, if_neg hones]
    by_cases hzero : unpackExponent b = 0#11
    · rw [if_pos hzero]
      by_cases hmantissa : unpackMantissa b = 0#52
      · rw [dif_pos hmantissa]
        rfl
      · rw [dif_neg hmantissa]
        rfl
    · rw [if_neg hzero]
      rfl

theorem toNat_unpackExponent (x : Float) :
    (@unpackExponent Format.binary64 x.toBits.toBitVec).toNat =
      x.toBits.toNat / 2 ^ 52 % 2048 := by
  change (x.toBits.toBitVec.extractLsb' 52 11).toNat = _
  rw [BitVec.extractLsb'_toNat, Nat.shiftRight_eq_div_pow]
  rfl

theorem isFinite_eq (x : Float) :
    x.isFinite = decide (x.toBits.toNat / 2 ^ 52 % 2048 ≠ 2047) := by
  have hexponent : x.isFinite = decide (@unpackExponent Format.binary64
      x.toBits.toBitVec ≠ -1#11) := isFinite_unpack _
  rw [hexponent, ← toNat_unpackExponent, decide_eq_decide, Ne, ← BitVec.toNat_inj]
  rfl

/-- A float has an exact value exactly if it is finite. -/
theorem ofFloat?_eq_none_iff : Binary.ofFloat? x = none ↔ x.isFinite = false := by
  have hleading : leadingBit = 2 ^ 52 := rfl
  rw [isFinite_eq, decide_eq_false_iff_not, Decidable.not_not]
  unfold Binary.ofFloat?
  dsimp only
  rw [hleading]
  constructor
  · intro hnone
    by_contra hbiased
    rw [if_neg hbiased] at hnone
    split at hnone <;> cases hnone
  · intro hbiased
    rw [if_pos hbiased]

theorem ofFloat?_of_isFinite (h : x.isFinite) : ∃ b, Binary.ofFloat? x = some b := by
  cases hfloat : Binary.ofFloat? x with
  | none =>
    rw [ofFloat?_eq_none_iff.1 hfloat] at h
    cases h
  | some b => exact ⟨b, rfl⟩

/-! ## Signs -/

/-- What is unpacked is not too large to be packed again. -/
theorem exponent_le_of_unpack {b : BitVec Format.binary64.numBits} {s : Sign} {m : Nat} {e : Int}
    {hm : 0 < m} (h : UnpackedFloat.unpack Format.binary64 b = .finite s m e hm) : e ≤ 971 := by
  have hexponent : unpackExponent b ≠ -1#11 := by
    have hfinite := isFinite_unpack b
    rw [h] at hfinite
    exact of_decide_eq_true hfinite.symm
  have hlt : (unpackExponent b).toNat ≠ 2047 := fun heq => hexponent (BitVec.eq_of_toNat_eq heq)
  have hbound : (unpackExponent b).toNat < 2 ^ 11 := (unpackExponent b).isLt
  unfold UnpackedFloat.unpack at h
  dsimp only at h
  rw [if_neg hexponent] at h
  by_cases hzero : unpackExponent b = 0#11
  · rw [if_pos hzero] at h
    by_cases hmantissa : unpackMantissa b = 0#52
    · rw [dif_pos hmantissa] at h
      cases h
    · rw [dif_neg hmantissa, UnpackedFloat.finite.injEq] at h
      rw [← h.2.2, hzero]
      decide
  · rw [if_neg hzero, UnpackedFloat.finite.injEq] at h
    rw [← h.2.2]
    change ((unpackExponent b).toNat : Int) - ((1023 : Nat) + (52 : Nat)) ≤ 971
    omega

theorem isFinite_pack {s : Sign} {m : Nat} {e : Int} {hm : 0 < m} (he : e ≤ 971) :
    (UnpackedFloat.unpack Format.binary64
      (UnpackedFloat.pack Format.binary64 (.finite s m e hm))).isFinite = true := by
  have hsmall : ¬2 ^ 11 ≤ (e + (1023 : Nat) + (52 : Nat)).toNat + 1 := by omega
  rw [isFinite_unpack]
  apply decide_eq_true
  unfold UnpackedFloat.pack
  dsimp only
  split
  · rename_i hlarge
    exact absurd hlarge hsmall
  split
  · rw [unpackExponent_packComponents]
    intro hones
    have hvalue := congrArg BitVec.toNat hones
    rw [BitVec.toNat_ofNat, Nat.mod_eq_of_lt (by omega)] at hvalue
    change _ = 2047 at hvalue
    omega
  · rw [unpackExponent_packComponents]
    decide

theorem isFinite_neg (h : x.isFinite = true) : (-x).isFinite = true := by
  change (Float.Model.pack x.toModel.unpack.neg).unpack.isFinite = true
  change x.toModel.unpack.isFinite = true at h
  cases hunpacked : x.toModel.unpack with
  | notANumber =>
    rw [hunpacked] at h
    cases h
  | infinity s =>
    rw [hunpacked] at h
    cases h
  | zero s => cases s <;> rfl
  | finite s m e hm => exact @isFinite_pack (-s) m e hm (exponent_le_of_unpack hunpacked)

/-! ## Numbers -/

theorem isNaN_unpack_of_exponent {b : BitVec Format.binary64.numBits}
    (h : unpackExponent b ≠ -1#11) :
    (UnpackedFloat.unpack Format.binary64 b).isNaN = false := by
  have hfinite := isFinite_unpack b
  rw [decide_eq_true h] at hfinite
  cases hunpacked : UnpackedFloat.unpack Format.binary64 b with
  | notANumber =>
    rw [hunpacked] at hfinite
    cases hfinite
  | _ => rfl

/-- What is packed is a number if it was one. -/
theorem isNaN_pack (h : u.isNaN = false) : (Float.ofModel (Float.Model.pack u)).isNaN = false := by
  change (UnpackedFloat.unpack Format.binary64 (UnpackedFloat.pack Format.binary64 u)).isNaN = false
  cases u with
  | notANumber => cases h
  | infinity s => cases s <;> rfl
  | zero s => cases s <;> rfl
  | finite s m e hm =>
    unfold UnpackedFloat.pack
    dsimp only
    split
    · cases s <;> rfl
    · rename_i hsmall
      have hsize : ¬2 ^ 11 ≤
          (e + Format.binary64.exponentBias + Format.binary64.mantissaBitsWithoutImplicit).toNat + 1 :=
        hsmall
      split
      · refine isNaN_unpack_of_exponent ?_
        rw [unpackExponent_packComponents]
        intro hones
        have hvalue := congrArg BitVec.toNat hones
        rw [BitVec.toNat_ofNat, Nat.mod_eq_of_lt (by omega)] at hvalue
        change _ = 2047 at hvalue
        omega
      · refine isNaN_unpack_of_exponent ?_
        rw [unpackExponent_packComponents]
        decide

theorem isNaN_neg (h : x.isNaN = false) : (-x).isNaN = false := by
  refine isNaN_pack ?_
  change x.toModel.unpack.isNaN = false at h
  cases hunpacked : x.toModel.unpack with
  | notANumber =>
    rw [hunpacked] at h
    cases h
  | _ => rfl

theorem isNaN_roundWithAccuracy (s : Sign) (m : Nat) (e : Int) (a : Accuracy) :
    (roundWithAccuracy Format.binary64 s m e a).isNaN = false := by
  unfold roundWithAccuracy
  dsimp only
  rw [apply_dite UnpackedFloat.isNaN]
  exact dite_eq_ite.trans (ite_self _)

/-- Is positive and not infinite. -/
def isPositive : UnpackedFloat → Bool
  | .finite .positive _ _ _ => true
  | _ => false

theorem eq_finite_of_isPositive (h : isPositive u) : ∃ m e hm, u = .finite .positive m e hm := by
  match u with
  | .finite .positive m e hm => exact ⟨m, e, hm, rfl⟩

theorem isNaN_mul (hx : x.isNaN = false) (hy : isPositive y.toModel.unpack) :
    (x * y).isNaN = false := by
  obtain ⟨m, e, h, hy⟩ := eq_finite_of_isPositive hy
  refine isNaN_pack ?_
  change x.toModel.unpack.isNaN = false at hx
  rw [hy]
  cases hunpacked : x.toModel.unpack with
  | notANumber =>
    rw [hunpacked] at hx
    cases hx
  | infinity s => rfl
  | zero s => rfl
  | finite s m' e' h' => exact isNaN_roundWithAccuracy _ _ _ _

theorem isNaN_div (hx : x.isNaN = false) (hy : isPositive y.toModel.unpack) :
    (x / y).isNaN = false := by
  obtain ⟨m, e, h, hy⟩ := eq_finite_of_isPositive hy
  refine isNaN_pack ?_
  change x.toModel.unpack.isNaN = false at hx
  rw [hy]
  cases hunpacked : x.toModel.unpack with
  | notANumber =>
    rw [hunpacked] at hx
    cases hx
  | infinity s => rfl
  | zero s => rfl
  | finite s m' e' h' => exact isNaN_roundWithAccuracy _ _ _ _

/-! ## Decimal digits -/

theorem isNaN_ofNat (n : Nat) : (UnpackedFloat.ofNat Format.binary64 n).isNaN = false := by
  unfold UnpackedFloat.ofNat UnpackedFloat.ofInt UnpackedFloat.normalize
  split
  · exact isNaN_roundWithAccuracy _ _ _ _
  · rfl
  · exact isNaN_roundWithAccuracy _ _ _ _

theorem isPositive_powerOfTen : ∀ i : Fin Float.exactlyRepresentablePowersOfTen.size,
    isPositive (Float.exactlyRepresentablePowersOfTen[i]).toModel.unpack := by
  decide

theorem isNaN_scientific (m : Nat) (e : Int) :
    (UnpackedFloat.ofScientific Format.binary64 m e).isNaN = false := by
  let IsNumber (u : UnpackedFloat) : Prop := u.isNaN = false
  change IsNumber (UnpackedFloat.ofScientific Format.binary64 m e)
  unfold UnpackedFloat.ofScientific
  by_cases hm : m = 0
  · rw [dif_pos hm]
    rfl
  rw [dif_neg hm]
  refine iteInduction (fun _ => rfl) fun _ => ?_
  refine iteInduction (fun _ => rfl) fun _ => ?_
  refine iteInduction (fun _ => ?_) fun _ => ?_
  · exact isNaN_roundWithAccuracy _ _ _ _
  · exact isNaN_roundWithAccuracy _ _ _ _

theorem isNaN_ofScientific (m : Nat) (negative : Bool) (e : Nat) :
    (Float.ofScientific m negative e).isNaN = false := by
  unfold Float.ofScientific
  split
  · rename_i hsmall
    have hword : m.toUInt64.toFloat.isNaN = false := isNaN_pack (isNaN_ofNat _)
    have hpower := isPositive_powerOfTen ⟨e, Nat.lt_succ_of_le hsmall.2⟩
    dsimp only
    split
    · exact isNaN_div hword hpower
    · exact isNaN_mul hword hpower
  · exact isNaN_pack (isNaN_scientific m _)

theorem isNaN_ofDecimal (digits : Nat) (exponent : Int) :
    (ofDecimal digits exponent).isNaN = false := by
  unfold ofDecimal
  dsimp only
  split
  · rfl
  split
  · rfl
  · exact isNaN_ofScientific _ _ _

theorem Scientific.isNaN_toFloat (s : Scientific) : s.toFloat.isNaN = false := by
  unfold Scientific.toFloat
  dsimp only
  split
  · exact isNaN_neg (isNaN_ofDecimal _ _)
  · exact isNaN_ofDecimal _ _

/-! ## Infinite numbers -/

/-- A number that is not finite is as far from zero as any bound. -/
theorem le_abs_of_infinite (hx : x.isNaN = false) (hinfinite : x.isFinite = false)
    (hbound : bound.isNaN = false) : bound ≤ x.abs := by
  change x.toModel.unpack.isNaN = false at hx
  change x.toModel.unpack.isFinite = false at hinfinite
  change bound.toModel.unpack.isNaN = false at hbound
  have habs : x.abs.toModel.unpack = .infinity .positive := by
    change (Float.Model.pack x.toModel.unpack.abs).unpack = _
    cases hunpacked : x.toModel.unpack with
    | notANumber =>
      rw [hunpacked] at hx
      cases hx
    | infinity s =>
      change (Float.Model.pack (.infinity .positive)).unpack = _
      rfl
    | zero s =>
      rw [hunpacked] at hinfinite
      cases hinfinite
    | finite s m e h =>
      rw [hunpacked] at hinfinite
      cases hinfinite
  have hle : bound.toModel.unpack.le x.abs.toModel.unpack = true := by
    rw [habs]
    cases hunpacked : bound.toModel.unpack with
    | notANumber =>
      rw [hunpacked] at hbound
      cases hbound
    | infinity s => cases s <;> rfl
    | zero s => rfl
    | finite s m e h => rfl
  exact decide_eq_true hle

end Worksheet.Number
