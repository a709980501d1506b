import Worksheet.Number.Rounding
import Mathlib.Data.Nat.Log
import Mathlib.Tactic.Positivity
import Mathlib.Tactic.Ring
/-!
# Whole numbers as floats

A whole number below `2 ^ 53` is a float, so it is its own nearest whole number. The float is
followed through the conversion: it is shifted to a significand of full length, which no rounding
changes any more, and its bits give the significand back.
-/

namespace Worksheet.Number

open Float.Model UnpackedFloat

/-- A significand of all the bits that a float has. -/
def IsFull (m : Nat) : Prop := 2 ^ 52 ≤ m ∧ m < 2 ^ 53

section

variable {m : Nat} {e : Int}

theorem IsFull.pos (h : IsFull m) : 0 < m := lt_of_lt_of_le (by decide) h.1

theorem IsFull.log2_mul (h : IsFull m) (k : Nat) : (m * 2 ^ k).log2 = 52 + k := by
  have hne : m * 2 ^ k ≠ 0 := Nat.mul_ne_zero h.pos.ne' (by positivity)
  rw [Nat.log2_eq_iff hne]
  constructor
  · calc 2 ^ (52 + k) = 2 ^ 52 * 2 ^ k := pow_add 2 52 k
      _ ≤ m * 2 ^ k := Nat.mul_le_mul_right _ h.1
  · calc m * 2 ^ k < 2 ^ 53 * 2 ^ k := Nat.mul_lt_mul_of_pos_right h.2 (by positivity)
      _ = 2 ^ (52 + k + 1) := by ring

/-! ## Rounding -/

theorem shiftRight_exact (m k : Nat) :
    (ExtendedMantissa.mk (m * 2 ^ k) false false) >>> k = ⟨m, false, false⟩ := by
  change Nat.repeat ExtendedMantissa.shiftRightOne k _ = _
  induction k generalizing m with
  | zero => simp [Nat.repeat]
  | succ k ih =>
    have hsplit : m * 2 ^ (k + 1) = m * 2 * 2 ^ k := by ring
    rw [Nat.repeat, hsplit, ih]
    simp [ExtendedMantissa.shiftRightOne]

theorem shiftToTargetExponent_exact (h : IsFull m) (he : -1074 ≤ e) (k : Nat) :
    shiftToTargetExponent Format.binary64 (m * 2 ^ k) (e - k) .exact = (⟨m, false, false⟩, e) := by
  have htarget : Format.binary64.targetExponent (totalExponent (m * 2 ^ k) (e - k)) = e := by
    rw [totalExponent, h.log2_mul]
    change max (((52 + k : Nat) : Int) + 1 + (e - k) - 53) (-1074) = e
    omega
  have hshift : (e - (e - (k : Int))).toNat = k := by omega
  have hexponent : e - (k : Int) + (k : Int) = e := by omega
  unfold shiftToTargetExponent
  dsimp only
  rw [htarget]
  unfold shiftToExponent
  dsimp only
  rw [hshift, hexponent, ExtendedMantissa.ofMantissaAndAccuracy, shiftRight_exact]

/-- Zeros behind a full significand are shifted out without a trace. -/
theorem roundWithAccuracy_exact (h : IsFull m) (he : -1074 ≤ e) (s : Sign) (k : Nat) :
    roundWithAccuracy Format.binary64 s (m * 2 ^ k) (e - k) .exact = .finite s m e h.pos := by
  have hagain : shiftToTargetExponent Format.binary64 m e .exact = (⟨m, false, false⟩, e) := by
    simpa using shiftToTargetExponent_exact h he 0
  unfold roundWithAccuracy
  rw [shiftToTargetExponent_exact h he k]
  dsimp only
  rw [show (ExtendedMantissa.mk m false false).roundedMantissa = m from rfl, hagain]
  exact dif_neg h.pos.ne'

/-! ## Bits -/

theorem pack_finite (h : IsFull m) (hlow : -1074 ≤ e) (hhigh : e ≤ 971) :
    UnpackedFloat.pack Format.binary64 (.finite .positive m e h.pos) =
      packComponents Format.binary64 .positive (BitVec.ofNat 11 (e + 1075).toNat)
        (BitVec.ofNat 52 m) := by
  have hlog : m.log2 = 52 := by simpa using h.log2_mul 0
  have hbias : e + (Format.binary64.exponentBias : Int) + (52 : Nat) = e + 1075 := by
    change e + (1023 : Nat) + (52 : Nat) = _
    omega
  have hfinite : ¬2 ^ 11 ≤ (e + 1075).toNat + 1 := by omega
  unfold UnpackedFloat.pack
  dsimp only
  rw [hbias, hlog, if_neg hfinite]
  rfl

theorem unpackSign_positive (exponent : BitVec 11) (m : BitVec 52) :
    unpackSign (packComponents Format.binary64 .positive exponent m) = 0#1 := by
  change (0#1 ++ exponent ++ m).extractLsb' 63 1 = 0#1
  rw [BitVec.extractLsb'_append_eq_of_le (by decide),
    BitVec.extractLsb'_append_eq_of_le (by decide)]
  rfl

theorem toNat_leading_append (h : IsFull m) : (1#1 ++ BitVec.ofNat 52 m).toNat = m := by
  have hlow := h.1
  have hhigh := h.2
  rw [BitVec.toNat_append, BitVec.toNat_ofNat, BitVec.toNat_ofNat,
    ← Nat.shiftLeft_add_eq_or_of_lt (Nat.mod_lt m (by decide)), Nat.shiftLeft_eq]
  omega

theorem unpack_pack (h : IsFull m) (hlow : -1074 ≤ e) (hhigh : e ≤ 971) :
    UnpackedFloat.unpack Format.binary64
      (UnpackedFloat.pack Format.binary64 (.finite .positive m e h.pos)) =
      .finite .positive m e h.pos := by
  have hexponent : (BitVec.ofNat 11 (e + 1075).toNat).toNat = (e + 1075).toNat := by
    rw [BitVec.toNat_ofNat, Nat.mod_eq_of_lt]
    omega
  have hfinite : BitVec.ofNat 11 (e + 1075).toNat ≠ -1#11 := by
    intro heq
    have hvalue := congrArg BitVec.toNat heq
    rw [hexponent] at hvalue
    change _ = 2047 at hvalue
    omega
  have hnormal : BitVec.ofNat 11 (e + 1075).toNat ≠ 0#11 := by
    intro heq
    have hvalue := congrArg BitVec.toNat heq
    rw [hexponent] at hvalue
    change _ = 0 at hvalue
    omega
  have hbias : ((BitVec.ofNat 11 (e + 1075).toNat).toNat : Int) - ((1023 : Nat) + (52 : Nat)) =
      e := by
    omega
  rw [pack_finite h hlow hhigh]
  unfold UnpackedFloat.unpack
  dsimp only
  rw [if_neg (by rwa [unpackExponent_packComponents]),
    if_neg (by rwa [unpackExponent_packComponents]), UnpackedFloat.finite.injEq,
    unpackExponent_packComponents, unpackMantissa_packComponents, unpackSign_positive]
  exact ⟨rfl, toNat_leading_append h, hbias⟩

/-- The float `m * 2 ^ e`. -/
def full (m : Nat) (e : Int) (h : IsFull m) : Float :=
  ⟨Float.Model.pack (.finite .positive m e h.pos)⟩

theorem toBits_full (h : IsFull m) (hlow : -1074 ≤ e) (hhigh : e ≤ 971) :
    (full m e h).toBits.toNat = (e + 1075).toNat * 2 ^ 52 + (m - 2 ^ 52) := by
  have hm := h.1
  have hm' := h.2
  have hbits : (full m e h).toBits.toNat =
      (0#1 ++ BitVec.ofNat 11 (e + 1075).toNat ++ BitVec.ofNat 52 m).toNat :=
    congrArg BitVec.toNat (pack_finite h hlow hhigh)
  have hexponent : (e + 1075).toNat % 2 ^ 11 = (e + 1075).toNat := Nat.mod_eq_of_lt (by omega)
  simp only [hbits, BitVec.toNat_append, BitVec.toNat_ofNat, hexponent, Nat.zero_mod,
    Nat.zero_shiftLeft, Nat.zero_or]
  rw [← Nat.shiftLeft_add_eq_or_of_lt (Nat.mod_lt m (by decide)), Nat.shiftLeft_eq]
  omega

theorem ofFloat?_full (h : IsFull m) (hlow : -1074 ≤ e) (hhigh : e ≤ 971) :
    Binary.ofFloat? (full m e h) = some ⟨false, m, e⟩ := by
  have hm := h.1
  have hm' := h.2
  have hsign : signBit = 2 ^ 63 := rfl
  have hleading : leadingBit = 2 ^ 52 := rfl
  have hbiased : ((e + 1075).toNat * 2 ^ 52 + (m - 2 ^ 52)) / 2 ^ 52 % 2048 = (e + 1075).toNat := by
    omega
  have hfraction : ((e + 1075).toNat * 2 ^ 52 + (m - 2 ^ 52)) % 2 ^ 52 = m - 2 ^ 52 := by omega
  have hpositive : ¬((e + 1075).toNat * 2 ^ 52 + (m - 2 ^ 52)) / 2 ^ 63 = 1 := by omega
  have hsignificand : m - 2 ^ 52 + 2 ^ 52 = m := by omega
  have hexponent : ((e + 1075).toNat : Int) - 1075 = e := by omega
  unfold Binary.ofFloat?
  rw [toBits_full h hlow hhigh, hsign, hleading]
  dsimp only
  rw [hbiased, hfraction, decide_eq_false hpositive, if_neg (by omega), if_neg (by omega),
    hsignificand, hexponent]

theorem full_mul_one (h : IsFull m) (hlow : -1074 ≤ e) (hhigh : e ≤ 971) :
    full m e h * Float.exactlyRepresentablePowersOfTen[0] = full m e h := by
  have hone : (Float.exactlyRepresentablePowersOfTen[0]).toModel.unpack =
      .finite .positive (2 ^ 52) (-52) (by decide) := rfl
  have hself : (full m e h).toModel.unpack = .finite .positive m e h.pos := unpack_pack h hlow hhigh
  have hround := roundWithAccuracy_exact h hlow .positive 52
  change Float.ofModel ((full m e h).toModel.mul (Float.exactlyRepresentablePowersOfTen[0]).toModel)
    = _
  rw [Float.Model.mul, hone, hself]
  exact congrArg (fun x => Float.ofModel (Float.Model.pack x)) hround

end

/-! ## Conversion -/

variable {n : Nat}

theorem isFull_shift (hpos : 0 < n) (h : n < 2 ^ 53) : IsFull (n * 2 ^ (52 - n.log2)) := by
  have hlog := (Nat.log2_lt hpos.ne').2 h
  have hsplit : 2 ^ 52 = 2 ^ n.log2 * 2 ^ (52 - n.log2) := by
    rw [← pow_add]
    congr 1
    omega
  constructor
  · rw [hsplit]
    exact Nat.mul_le_mul_right _ (Nat.log2_self_le hpos.ne')
  · calc n * 2 ^ (52 - n.log2) < 2 ^ (n.log2 + 1) * 2 ^ (52 - n.log2) :=
          Nat.mul_lt_mul_of_pos_right Nat.lt_log2_self (by positivity)
      _ = 2 * 2 ^ 52 := by rw [hsplit]; ring
      _ = 2 ^ 53 := rfl

theorem round_nat (hpos : 0 < n) (h : n < 2 ^ 53) :
    UnpackedFloat.round Format.binary64 .positive n 0 =
      .finite .positive (n * 2 ^ (52 - n.log2)) (-(52 - n.log2 : Nat))
        (isFull_shift hpos h).pos := by
  have hlog := (Nat.log2_lt hpos.ne').2 h
  have htarget : Format.binary64.targetExponent (totalExponent n 0) = -(52 - n.log2 : Nat) := by
    change max ((n.log2 : Int) + 1 + 0 - 53) (-1074) = _
    omega
  have hshift : (0 - (-(52 - n.log2 : Nat) : Int)).toNat = 52 - n.log2 := by omega
  have hexact := roundWithAccuracy_exact (isFull_shift hpos h) (e := -(52 - n.log2 : Nat))
    (by omega) .positive 0
  rw [pow_zero, mul_one, Nat.cast_zero, sub_zero] at hexact
  unfold UnpackedFloat.round
  dsimp only
  rw [htarget, decreaseExponent]
  dsimp only
  rw [hshift, Nat.shiftLeft_eq, zero_sub]
  exact hexact

theorem ofNat_eq_full (hpos : 0 < n) (h : n < 2 ^ 53) :
    Float.ofNat n = full _ (-(52 - n.log2 : Nat)) (isFull_shift hpos h) := by
  have hword : n.toUInt64.toNat = n := by
    rw [Nat.toUInt64_eq, UInt64.toNat_ofNat', Nat.mod_eq_of_lt]
    omega
  have hgt : compare (n : Int) 0 = .gt := by
    rw [compare_gt_iff_gt]
    omega
  have hconverted : n.toUInt64.toFloat = full _ (-(52 - n.log2 : Nat)) (isFull_shift hpos h) := by
    change Float.ofModel (Float.Model.pack
      (UnpackedFloat.ofNat Format.binary64 n.toUInt64.toNat)) = _
    rw [hword, UnpackedFloat.ofNat, UnpackedFloat.ofInt, UnpackedFloat.normalize, hgt]
    dsimp only
    rw [Int.toNat_natCast, round_nat hpos h]
    rfl
  have hscientific : Float.ofNat n =
      n.toUInt64.toFloat * Float.exactlyRepresentablePowersOfTen[0] := by
    change Float.ofScientific n false 0 = _
    rw [Float.ofScientific, dif_pos ⟨h, by decide⟩]
    rfl
  rw [hscientific, hconverted, full_mul_one _ (by omega) (by omega)]

theorem nearest?_ofNat (hpos : 0 < n) (h : n < 2 ^ 53) : nearest? (Float.ofNat n) = some n := by
  have hscale : 0 < 2 ^ (52 - n.log2) := by positivity
  have hround : roundDiv .away (n * 2 ^ (52 - n.log2)) (2 ^ (52 - n.log2)) = n := by
    rw [roundDiv, Nat.mul_mod_left, Nat.mul_div_cancel _ hscale]
    exact if_pos hscale
  rw [nearest?, ofNat_eq_full hpos h, ofFloat?_full _ (by omega) (by omega)]
  simp [Binary.numerator, Binary.denominator, twoPow, hround]

end Worksheet.Number
