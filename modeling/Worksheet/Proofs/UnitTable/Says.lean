import Worksheet.Proofs.Expr.Grammar
import Worksheet.Proofs.Number.Whole
import Worksheet.Proofs.Number.Numeral
import Worksheet.Proofs.Token.Spelling
import Worksheet.Proofs.UnitProduct.Reduced
import Worksheet.UnitTable.Expression
/-!
# What unit expressions say

The exponents that a tree of units says, for every sign it can be made with, and the tokens that
read as such trees.
-/

namespace Worksheet

open Token.Kind

/-! ## Whole numbers -/

theorem Number.isNear_self (x : Float) : Number.isNear x x := by
  simp [Number.isNear, Number.isClose]

theorem literalInteger_ofNat (span : Span) {n : Nat} (hpos : 0 < n) (h : (n : Int) ≤ maxExponent) :
    literalInteger span (Float.ofNat n) = .ok n := by
  have hsize : n < 2 ^ 53 := by
    unfold maxExponent at h
    omega
  have hnear : Number.isNear (Float.ofNat n) (Float.ofInt n) := Number.isNear_self (Float.ofNat n)
  rw [literalInteger, Number.nearest?_ofNat hpos hsize]
  simp [hnear, h]

namespace Expr

section

variable {scope : Scope} {last : Nat} {ks ks' : List Token.Kind} {n : Int}

theorem integer_negative (span : Span) {e : Expr} {m n : Int} (he : e.integer = .ok m)
    (hn : exponent? (-m) = some n) : (signed span .negative e).integer = .ok n := by
  rw [integer, he, ok_bind]
  simp only [hn]

theorem operand_nat {n : Nat} (hpos : 0 < n) (h : (n : Int) ≤ maxExponent) :
    Understands (operand scope last) opens [.num (toString n)] fun e => e.integer = .ok n := by
  have hsize : n < 2 ^ 53 := by
    unfold maxExponent at h
    omega
  refine operand_num (Number.Numeral.value?_toString hpos hsize) fun span => ?_
  rw [integer, literalInteger_ofNat span hpos h]

theorem signedTerm_int (h : IsExponent n) :
    Understands (signedTerm scope last) raises (Scan.intKinds n) fun e => e.integer = .ok n := by
  have hlow := h.neg_le
  obtain ⟨hne, -, hhigh⟩ := h
  cases n with
  | ofNat n =>
    have hpos : 0 < n := by
      simp only [Int.ofNat_eq_natCast] at hne
      omega
    exact signedTerm_of_power rfl (power_of_operand (operand_nat hpos hhigh))
  | negSucc n =>
    have hopposite : -((n + 1 : Nat) : Int) = Int.negSucc n := rfl
    rw [← hopposite] at hlow
    have hsize : ((n + 1 : Nat) : Int) ≤ maxExponent := neg_le_neg_iff.1 hlow
    rw [hopposite] at hlow
    have hfits : exponent? (-((n + 1 : Nat) : Int)) = some (Int.negSucc n) := by
      rw [hopposite, exponent?_of_fits (fitsExponent_of_le hlow hhigh)]
    refine signedTerm_sign rfl
      (signedTerm_of_power rfl (power_of_operand (operand_nat (Nat.succ_pos n) hsize))) ?_
    exact fun span e he => integer_negative span he hfits

/-- A base with an exponent in braces. -/
theorem power_exponent {Q Q' : Expr → Prop} (hn : IsExponent n)
    (hbase : Understands (operand scope last) opens ks Q)
    (h : ∀ base exponent, Q base → exponent.integer = .ok n → Q' (join .exp base exponent)) :
    Understands (power scope last) raises (ks ++ Scan.exponentKinds n) Q' := by
  refine power_exp (subscripted_of_operand hbase) ?_ h
  refine signedTerm_of_power rfl (power_of_operand ?_)
  refine operand_group (.inr ⟨rfl, rfl⟩) (sum_of_signedTerm (signedTerm_int hn)) ?_
  intro span e he
  rw [integer, he]

end

end Expr

namespace UnitTable

open Worksheet.Expr

/-- A tree that says these exponents, and is no whole number. -/
structure Says (t : UnitTable) (amount : String → Int) (e : Expr) : Prop where
  product : ∃ p, t.product e = .ok p ∧ p.Reduced ∧ ∀ s, p.get s = amount s
  notInteger : ∃ fault, e.integer = .error fault

/-- A tree that says the number one. -/
structure SaysOne (t : UnitTable) (e : Expr) : Prop where
  product : t.product e = .ok .one
  integer : e.integer = .ok 1

/-- A name that units of the table are read from. -/
structure Names (t : UnitTable) (name : String) (symbol : String) : Prop where
  not_dimensionless : (Name.ofSpelling name).text ≠ "dimensionless"
  not_dmnl : (Name.ofSpelling name).text ≠ "dmnl"
  lookup : ∃ entry, t.lookup (Name.ofSpelling name).text = some entry ∧ entry.symbol = symbol

variable {t : UnitTable} {amount amount' : String → Int} {left right e : Expr} {n : Int}
  {symbol name : String}

theorem Says.congr (h : t.Says amount e) (hamount : ∀ s, amount s = amount' s) :
    t.Says amount' e := by
  rwa [← funext hamount]

theorem Names.says (h : t.Names name symbol) (span : Span) :
    t.Says (Factors.amount [(symbol, 1)]) (.var span (Name.ofSpelling name) .unresolved) := by
  obtain ⟨entry, hentry, hsymbol⟩ := h.lookup
  have hget : ∀ s, (UnitProduct.unit symbol).get s = Factors.amount [(symbol, 1)] s := by
    intro s
    rw [UnitProduct.get_unit, Factors.amount_single]
  refine ⟨⟨.unit symbol, ?_, UnitProduct.reduced_unit symbol, hget⟩, _, rfl⟩
  rw [UnitTable.product, if_neg (not_or.2 ⟨h.not_dimensionless, h.not_dmnl⟩), single, hentry]
  simp only [hsymbol]

theorem Says.group (h : t.Says amount e) (span : Span) : t.Says amount (.group span e) := by
  obtain ⟨p, hp, hproduct⟩ := h.product
  obtain ⟨fault, hfault⟩ := h.notInteger
  exact ⟨⟨p, by rw [UnitTable.product, hp], hproduct⟩, fault, by rw [Expr.integer, hfault]⟩

theorem Says.exp (h : t.Says amount left) (hright : right.integer = .ok n) (hn : n ≠ 0)
    (hfits : ∀ s, fitsExponent (amount s * n)) :
    t.Says (fun s => amount s * n) (join .exp left right) := by
  obtain ⟨p, hp, hreduced, hget⟩ := h.product
  obtain ⟨fault, hfault⟩ := h.notInteger
  have hpow : ∀ s, fitsExponent (p.get s * n) := fun s => hget s ▸ hfits s
  obtain ⟨r, hr⟩ := UnitProduct.pow?_of_fits hpow
  refine ⟨⟨r, ?_, hreduced.pow? hn hr, fun s => ?_⟩, fault, ?_⟩
  · rw [join, UnitTable.product, hright, ok_bind, hp, ok_bind, hr, orOverflow]
  · rw [UnitProduct.get_pow? hr, hget]
  · rw [join, Expr.integer, hfault, error_bind]

theorem Says.mul (hleft : t.Says amount left) (hright : t.Says amount' right)
    (hfits : ∀ s, fitsExponent (amount s + amount' s)) :
    t.Says (fun s => amount s + amount' s) (join .mul left right) := by
  obtain ⟨p, hp, hreduced, hget⟩ := hleft.product
  obtain ⟨q, hq, -, hget'⟩ := hright.product
  obtain ⟨fault, hfault⟩ := hleft.notInteger
  have hsum : ∀ s, fitsExponent (p.get s + q.get s) := fun s => by
    rw [hget, hget']
    exact hfits s
  obtain ⟨r, hr⟩ := UnitProduct.mul?_of_fits hsum
  refine ⟨⟨r, ?_, hreduced.mul? hr, fun s => ?_⟩, fault, ?_⟩
  · rw [join, UnitTable.product, hp, ok_bind, hq, ok_bind, hr, orOverflow]
  · rw [UnitProduct.get_mul? hr, hget, hget']
  · rw [join, Expr.integer, hfault, error_bind]

theorem Says.div (hleft : t.Says amount left) (hright : t.Says amount' right)
    (hinverse : ∀ s, fitsExponent (-amount' s)) (hfits : ∀ s, fitsExponent (amount s - amount' s)) :
    t.Says (fun s => amount s - amount' s) (join .div left right) := by
  obtain ⟨p, hp, hreduced, hget⟩ := hleft.product
  obtain ⟨q, hq, hreduced', hget'⟩ := hright.product
  obtain ⟨fault, hfault⟩ := hleft.notInteger
  have hopposite : ∀ s, fitsExponent (-q.get s) := fun s => hget' s ▸ hinverse s
  have hdifference : ∀ s, fitsExponent (p.get s - q.get s) := fun s => by
    rw [hget, hget']
    exact hfits s
  obtain ⟨r, hr⟩ := UnitProduct.div?_of_fits hopposite hdifference
  refine ⟨⟨r, ?_, ?_, fun s => ?_⟩, fault, ?_⟩
  · rw [join, UnitTable.product, hfault]
    simp only [hp, ok_bind, hq, hr, orOverflow]
  · obtain ⟨inverse, hinverse, hmul⟩ := Option.bind_eq_some_iff.1 hr
    exact hreduced.mul? hmul
  · rw [UnitProduct.get_div? hr, hget, hget']
  · rw [join, Expr.integer, hfault, error_bind]

theorem SaysOne.div (hleft : t.SaysOne left) (hright : t.Says amount right)
    (hfits : ∀ s, fitsExponent (-amount s)) :
    t.Says (fun s => -amount s) (join .div left right) := by
  obtain ⟨q, hq, hreduced, hget⟩ := hright.product
  obtain ⟨fault, hfault⟩ := hright.notInteger
  have hopposite : ∀ s, fitsExponent (-q.get s) := fun s => hget s ▸ hfits s
  obtain ⟨r, hr⟩ := UnitProduct.reciprocal?_of_fits hopposite
  refine ⟨⟨r, ?_, hreduced.reciprocal? hr, fun s => ?_⟩, fault, ?_⟩
  · rw [join, UnitTable.product, hleft.integer]
    simp only [if_true, hq, ok_bind, hr, orOverflow]
  · rw [UnitProduct.get_eq_total, UnitProduct.total_reciprocal? hr, ← UnitProduct.get_eq_total, hget]
  · rw [join, Expr.integer, hleft.integer, ok_bind, hfault, error_bind]

end UnitTable

end Worksheet
