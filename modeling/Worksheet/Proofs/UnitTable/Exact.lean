import Worksheet.Proofs.UnitTable.Integrity
import Worksheet.Proofs.UnitTable.RoundTrip
import Worksheet.Proofs.UnitTable.Symbols
import Mathlib.Algebra.Group.Pi.Basic
import Mathlib.Algebra.Order.Ring.Abs
/-!
# Unit texts are counted exactly

What a unit expression says in whole numbers without bounds: how often each symbol counts, and the
numbers that stand as exponents. A condition on all numbers that come up on the way tells the
reading in 32 bits from the exact one. A text is read exactly, or not at all.
-/

namespace Worksheet

variable {R R' : Int → Prop} {e : Expr} {m n k : Int}

/-- An exponent of 32 bits. -/
abbrev InRange (n : Int) : Prop := fitsExponent n

/-- Numbers of any size. -/
abbrev AnySize (_ : Int) : Prop := True

theorem inRange_abs : InRange n ∧ InRange (-n) ↔ (n.natAbs : Int) ≤ maxExponent := by
  simp only [fitsExponent_iff, minExponent, maxExponent]
  omega

theorem exponent?_eq_some : exponent? n = some k ↔ n = k ∧ InRange k := by
  unfold exponent?
  by_cases h : fitsExponent n
  · rw [if_pos h, Option.some.injEq]
    refine ⟨?_, fun heq => heq.1⟩
    rintro rfl
    exact ⟨rfl, h⟩
  · rw [if_neg h]
    refine ⟨nofun, ?_⟩
    rintro ⟨rfl, hk⟩
    exact absurd hk h

/-! ## Whole numbers -/

/-- What a sign makes of two whole numbers. Division drops the remainder, and by zero gives zero;
only a negative exponent makes no whole number. -/
def BinaryOp.whole? (op : BinaryOp) (m n : Int) : Option Int :=
  match op with
  | .add => some (m + n)
  | .sub => some (m - n)
  | .mul => some (m * n)
  | .div => some (m.tdiv n)
  | .exp => if n < 0 then none else some (m ^ n.toNat)

/-- The powers that are given up at once are out of range. -/
theorem integerPower?_eq (m : Int) (exponent : Nat) :
    integerPower? m exponent = exponent? (m ^ exponent) := by
  have hsize : (if m < 0 ∧ exponent % 2 = 1 then -((m.natAbs ^ exponent : Nat) : Int)
      else (m.natAbs ^ exponent : Nat)) = m ^ exponent := by
    rw [Int.natCast_pow, Int.natCast_natAbs]
    by_cases hodd : exponent % 2 = 1
    · by_cases hm : m < 0
      · rw [if_pos ⟨hm, hodd⟩, abs_of_neg hm, Odd.neg_pow (Nat.odd_iff.2 hodd), neg_neg]
      · rw [if_neg fun h => hm h.1, abs_of_nonneg (not_lt.1 hm)]
    · rw [if_neg fun h => hodd h.2, Even.pow_abs (Nat.even_iff.2 (by omega))]
  unfold integerPower?
  split
  · rename_i hlarge
    obtain ⟨hbase, hexponent⟩ := hlarge
    have hpow : 2 ^ 32 ≤ (m ^ exponent).natAbs := by
      rw [Int.natAbs_pow]
      calc 2 ^ 32 ≤ 2 ^ exponent := Nat.pow_le_pow_right (by decide) hexponent
        _ ≤ m.natAbs ^ exponent := Nat.pow_le_pow_left hbase exponent
    have hout : ¬InRange (m ^ exponent) := by
      rw [InRange, fitsExponent_iff, minExponent, maxExponent]
      omega
    exact (if_neg hout).symm
  · exact congrArg exponent? hsize

/-- A sign is read as what it makes of its numbers, if that is in range. -/
theorem integerOp_eq_ok {op : BinaryOp} {span : Span} :
    integerOp op span m n = .ok k ↔ op.whole? m n = some k ∧ InRange k := by
  cases op with
  | add | sub | mul =>
    rw [BinaryOp.whole?, Option.some.injEq, ← exponent?_eq_some]
    simp only [integerOp, reduceCtorEq, false_and, if_false]
    split <;> rename_i hk <;> simp [hk]
  | div =>
    by_cases hn : n = 0
    · subst hn
      have hzero : integerOp .div span m 0 = .ok 0 := rfl
      rw [hzero, BinaryOp.whole?, Int.tdiv_zero, Except.ok.injEq, Option.some.injEq]
      refine ⟨?_, fun h => h.1⟩
      rintro rfl
      exact ⟨rfl, by decide⟩
    · rw [BinaryOp.whole?, Option.some.injEq, ← exponent?_eq_some]
      simp only [integerOp, reduceCtorEq, false_and, if_false, hn]
      split <;> rename_i hk <;> simp [hk]
  | exp =>
    by_cases hn : n < 0
    · simp [integerOp, BinaryOp.whole?, hn]
    · rw [BinaryOp.whole?, if_neg hn, Option.some.injEq, ← exponent?_eq_some, ← integerPower?_eq]
      simp only [integerOp, and_false, if_false, hn]
      split <;> rename_i hk <;> simp [hk]

namespace Expr

/-- The whole number that a tree of literals says, if every number on the way is `R`. A literal
says the number it is close to, and its opposite is asked about as well. -/
inductive Counts (R : Int → Prop) : Expr → Int → Prop where
  | const {span : Span} {literal : String} {value : Float} {n : Int}
      (hnearest : Number.nearest? value = some n) (hnear : Number.isNear value (Float.ofInt n))
      (hn : R n) (hopposite : R (-n)) : Counts R (.const span literal value) n
  | group {span : Span} {inner : Expr} {n : Int} (h : Counts R inner n) :
      Counts R (.group span inner) n
  | positive {span : Span} {operand : Expr} {n : Int} (h : Counts R operand n) :
      Counts R (.signed span .positive operand) n
  | negative {span : Span} {operand : Expr} {n : Int} (h : Counts R operand n) (hn : R (-n)) :
      Counts R (.signed span .negative operand) (-n)
  | binary {span : Span} {op : BinaryOp} {left right : Expr} {m n k : Int}
      (hleft : Counts R left m) (hright : Counts R right n) (hk : op.whole? m n = some k)
      (hrange : R k) : Counts R (.binary span op left right) k

theorem Counts.mono (h : Counts R e n) (hR : ∀ n, R n → R' n) : Counts R' e n := by
  induction h with
  | const hnearest hnear hn hopposite => exact .const hnearest hnear (hR _ hn) (hR _ hopposite)
  | group _ ih => exact .group ih
  | positive _ ih => exact .positive ih
  | negative _ hn ih => exact .negative ih (hR _ hn)
  | binary _ _ hk hrange ihleft ihright => exact .binary ihleft ihright hk (hR _ hrange)

/-- A tree says at most one number. -/
theorem Counts.unique (h : Counts R e m) (h' : Counts R' e n) : m = n := by
  induction h generalizing n with
  | const hnearest =>
    cases h' with
    | const hnearest' => exact Option.some.inj (hnearest.symm.trans hnearest')
  | group _ ih =>
    cases h' with
    | group h' => exact ih h'
  | positive _ ih =>
    cases h' with
    | positive h' => exact ih h'
  | negative _ _ ih =>
    cases h' with
    | negative h' => rw [ih h']
  | binary _ _ hk _ ihleft ihright =>
    cases h' with
    | binary hleft hright hk' =>
      rw [ihleft hleft, ihright hright] at hk
      exact Option.some.inj (hk.symm.trans hk')

/-- The numbers of 32 bits are those that are read. -/
theorem integer_eq_ok : e.integer = .ok n ↔ e.Counts InRange n := by
  constructor
  · intro h
    induction e using Expr.integer.induct generalizing n with
    | case1 span literal value =>
      unfold integer literalInteger at h
      split at h
      · cases h
      · rename_i whole hnearest
        split at h
        · cases h
        · rename_i hnear
          split at h
          · cases h
          · rename_i hsize
            cases h
            have hboth := inRange_abs.2 (not_lt.1 hsize)
            exact .const hnearest (by simpa using hnear) hboth.1 hboth.2
    | case7 span inner ih =>
      rw [integer] at h
      exact .group (ih h)
    | case8 span sign operand ih =>
      rw [integer] at h
      obtain ⟨inner, hinner, h⟩ := bind_eq_ok.1 h
      cases sign with
      | positive =>
        cases h
        exact .positive (ih hinner)
      | negative =>
        dsimp only at h
        split at h
        · rename_i k hk
          cases h
          obtain ⟨rfl, hrange⟩ := exponent?_eq_some.1 hk
          exact .negative (ih hinner) hrange
        · cases h
    | case9 span op left right ihleft ihright =>
      rw [integer] at h
      obtain ⟨m, hm, h⟩ := bind_eq_ok.1 h
      obtain ⟨k, hk, h⟩ := bind_eq_ok.1 h
      obtain ⟨hwhole, hrange⟩ := integerOp_eq_ok.1 h
      exact .binary (ihleft hm) (ihright hk) hwhole hrange
    | _ => rw [integer] at h; cases h
  · intro h
    induction h with
    | const hnearest hnear hn hopposite =>
      have hsize := inRange_abs.1 ⟨hn, hopposite⟩
      unfold integer literalInteger
      simp only [hnearest, hnear, Bool.not_true, Bool.false_eq_true, if_false]
      rw [if_neg (not_lt.2 hsize)]
    | group _ ih => exact ih
    | positive _ ih => rw [integer, ih]; rfl
    | negative _ hn ih => rw [integer, ih, ok_bind, exponent?_of_fits hn]
    | binary _ _ hk hrange ihleft ihright =>
      rw [integer, ihleft, ihright, ok_bind, ok_bind]
      exact integerOp_eq_ok.2 ⟨hk, hrange⟩

end Expr

/-! ## Symbols -/

namespace UnitTable

variable {t : UnitTable} {f g : String → Int} {p q r : UnitProduct}

/-- How often each symbol counts in a tree, if every number on the way is `R`. A name counts once
for its symbol, and a one or a word for it counts for none. A number as the numerator must be one;
any other quotient takes the opposite counts of its divisor. -/
inductive Amounts (R : Int → Prop) (t : UnitTable) : Expr → (String → Int) → Prop where
  | one {span : Span} {literal : String} {value : Float}
      (h : (Expr.const span literal value).Counts R 1) : Amounts R t (.const span literal value) 0
  | word {span : Span} {name : Name} {binding : Binding}
      (h : name.text = "dimensionless" ∨ name.text = "dmnl") :
      Amounts R t (.var span name binding) 0
  | var {span : Span} {name : Name} {binding : Binding} {entry : UnitEntry}
      (hword : ¬(name.text = "dimensionless" ∨ name.text = "dmnl"))
      (h : t.lookup name.text = some entry) :
      Amounts R t (.var span name binding) (Pi.single entry.symbol 1)
  | unit {span : Span} {text : String} {entry : UnitEntry} (h : t.lookup text = some entry) :
      Amounts R t (.unit span text) (Pi.single entry.symbol 1)
  | group {span : Span} {inner : Expr} {f : String → Int} (h : Amounts R t inner f) :
      Amounts R t (.group span inner) f
  | power {span : Span} {left right : Expr} {f : String → Int} {n : Int}
      (hleft : Amounts R t left f) (hright : right.Counts R n) (hrange : ∀ s, R (f s * n)) :
      Amounts R t (.binary span .exp left right) fun s => f s * n
  | product {span : Span} {left right : Expr} {f g : String → Int} (hleft : Amounts R t left f)
      (hright : Amounts R t right g) (hrange : ∀ s, R (f s + g s)) :
      Amounts R t (.binary span .mul left right) fun s => f s + g s
  | reciprocal {span : Span} {left right : Expr} {g : String → Int} (hleft : left.Counts R 1)
      (hright : Amounts R t right g) (hrange : ∀ s, R (-g s)) :
      Amounts R t (.binary span .div left right) fun s => -g s
  | quotient {span : Span} {left right : Expr} {f g : String → Int} (hleft : Amounts R t left f)
      (hright : Amounts R t right g) (hopposite : ∀ s, R (-g s)) (hrange : ∀ s, R (f s - g s)) :
      Amounts R t (.binary span .div left right) fun s => f s - g s

theorem Amounts.mono (h : t.Amounts R e f) (hR : ∀ n, R n → R' n) : t.Amounts R' e f := by
  induction h with
  | one h => exact .one (h.mono hR)
  | word h => exact .word h
  | var hword h => exact .var hword h
  | unit h => exact .unit h
  | group _ ih => exact .group ih
  | power _ hright hrange ih => exact .power ih (hright.mono hR) fun s => hR _ (hrange s)
  | product _ _ hrange ihleft ihright => exact .product ihleft ihright fun s => hR _ (hrange s)
  | reciprocal hleft _ hrange ih => exact .reciprocal (hleft.mono hR) ih fun s => hR _ (hrange s)
  | quotient _ _ hopposite hrange ihleft ihright =>
    exact .quotient ihleft ihright (fun s => hR _ (hopposite s)) fun s => hR _ (hrange s)

/-- What counts both as units and as a number is a one. -/
theorem Amounts.eq_one (h : t.Amounts R e f) (hn : e.Counts R' n) : n = 1 ∧ f = 0 := by
  induction h generalizing n with
  | one h => exact ⟨hn.unique h, rfl⟩
  | word | var | unit => cases hn
  | group _ ih =>
    cases hn with
    | group hn => exact ih hn
  | power _ _ _ ih =>
    cases hn with
    | binary hleft hright hk =>
      obtain ⟨rfl, rfl⟩ := ih hleft
      refine ⟨?_, funext fun s => zero_mul _⟩
      rw [BinaryOp.whole?] at hk
      split at hk
      · cases hk
      · rw [one_pow] at hk
        exact (Option.some.inj hk).symm
  | product _ _ _ ihleft ihright =>
    cases hn with
    | binary hleft hright hk =>
      obtain ⟨rfl, rfl⟩ := ihleft hleft
      obtain ⟨rfl, rfl⟩ := ihright hright
      exact ⟨(Option.some.inj hk).symm, rfl⟩
  | reciprocal hleft _ _ ih =>
    cases hn with
    | binary hleft' hright hk =>
      obtain rfl := hleft'.unique hleft
      obtain ⟨rfl, rfl⟩ := ih hright
      exact ⟨(Option.some.inj hk).symm, rfl⟩
  | quotient _ _ _ _ ihleft ihright =>
    cases hn with
    | binary hleft hright hk =>
      obtain ⟨rfl, rfl⟩ := ihleft hleft
      obtain ⟨rfl, rfl⟩ := ihright hright
      exact ⟨(Option.some.inj hk).symm, rfl⟩

/-- A tree gives each symbol one count. -/
theorem Amounts.unique (h : t.Amounts R e f) (h' : t.Amounts R' e g) : f = g := by
  induction h generalizing g with
  | one h =>
    cases h' with
    | one => rfl
  | word h =>
    cases h' with
    | word => rfl
    | var hword => exact absurd h hword
  | var hword h =>
    cases h' with
    | word h' => exact absurd h' hword
    | var _ h' => rw [Option.some.inj (h.symm.trans h')]
  | unit h =>
    cases h' with
    | unit h' => rw [Option.some.inj (h.symm.trans h')]
  | group _ ih =>
    cases h' with
    | group h' => exact ih h'
  | power _ hright _ ih =>
    cases h' with
    | power hleft' hright' => rw [ih hleft', hright.unique hright']
  | product _ _ _ ihleft ihright =>
    cases h' with
    | product hleft' hright' => rw [ihleft hleft', ihright hright']
  | reciprocal hleft _ _ ih =>
    cases h' with
    | reciprocal _ hright' => rw [ih hright']
    | quotient hleft' hright' =>
      obtain ⟨-, rfl⟩ := hleft'.eq_one hleft
      rw [ih hright']
      exact funext fun s => (zero_sub _).symm
  | quotient hleft _ _ _ ihleft ihright =>
    cases h' with
    | reciprocal hleft' hright' =>
      obtain ⟨-, rfl⟩ := hleft.eq_one hleft'
      rw [ihright hright']
      exact funext fun s => zero_sub _
    | quotient hleft' hright' => rw [ihleft hleft', ihright hright']

/-! ## What is read -/

theorem get_unit_eq_single (symbol : String) :
    (UnitProduct.unit symbol).get = Pi.single symbol 1 := by
  funext s
  rw [UnitProduct.get_unit, Pi.single_apply]

theorem fits_product (h : t.product e = .ok p) : p.Fits := (closed_fits.product e).result h

theorem orOverflow_eq_ok {span : Span} {p? : Option UnitProduct} :
    orOverflow span p? = .ok p ↔ p? = some p := by
  cases p? <;> simp [orOverflow]

theorem single_eq_ok {span : Span} {name : String} :
    t.single span name = .ok p ↔ ∃ entry, t.lookup name = some entry ∧ .unit entry.symbol = p := by
  unfold single
  cases t.lookup name <;> simp

/-- What is read counts every symbol as the tree does. -/
theorem amounts_of_product (h : t.product e = .ok p) : t.Amounts InRange e p.get := by
  fun_induction t.product e generalizing p with
  | case1 span literal value hone =>
    cases h
    exact .one (Expr.integer_eq_ok.1 hone)
  | case3 span name binding hword =>
    cases h
    exact .word hword
  | case4 span name binding hword =>
    obtain ⟨entry, hentry, rfl⟩ := single_eq_ok.1 h
    rw [get_unit_eq_single]
    exact .var hword hentry
  | case5 span text =>
    obtain ⟨entry, hentry, rfl⟩ := single_eq_ok.1 h
    rw [get_unit_eq_single]
    exact .unit hentry
  | case6 span inner ih => exact .group (ih h)
  | case11 span left right ih =>
    obtain ⟨n, hn, h⟩ := bind_eq_ok.1 h
    obtain ⟨q, hq, h⟩ := bind_eq_ok.1 h
    have hpow := orOverflow_eq_ok.1 h
    have hget : p.get = fun s => q.get s * n := funext (UnitProduct.get_pow? hpow)
    rw [hget]
    refine .power (ih hq) (Expr.integer_eq_ok.1 hn) fun s => ?_
    rw [← UnitProduct.get_pow? hpow]
    exact (UnitProduct.fits_pow? hpow).get s
  | case12 span left right ihleft ihright =>
    obtain ⟨q, hq, h⟩ := bind_eq_ok.1 h
    obtain ⟨r, hr, h⟩ := bind_eq_ok.1 h
    have hmul := orOverflow_eq_ok.1 h
    have hget : p.get = fun s => q.get s + r.get s := funext (UnitProduct.get_mul? hmul)
    rw [hget]
    refine .product (ihleft hq) (ihright hr) fun s => ?_
    rw [← UnitProduct.get_mul? hmul]
    exact ((fits_product hq).mul? hmul).get s
  | case13 span left right hone ih =>
    obtain ⟨q, hq, h⟩ := bind_eq_ok.1 h
    have hreciprocal := orOverflow_eq_ok.1 h
    have hget : p.get = fun s => -q.get s := funext (UnitProduct.get_reciprocal? hreciprocal)
    rw [hget]
    refine .reciprocal (Expr.integer_eq_ok.1 hone) (ih hq) fun s => ?_
    rw [← UnitProduct.get_reciprocal? hreciprocal]
    exact (UnitProduct.fits_mapExponents? hreciprocal).get s
  | case15 span left right _ _ ihleft ihright =>
    obtain ⟨q, hq, h⟩ := bind_eq_ok.1 h
    obtain ⟨r, hr, h⟩ := bind_eq_ok.1 h
    have hdiv := orOverflow_eq_ok.1 h
    obtain ⟨inverse, hinverse, hmul⟩ := Option.bind_eq_some_iff.1 hdiv
    have hget : p.get = fun s => q.get s - r.get s := funext (UnitProduct.get_div? hdiv)
    rw [hget]
    refine .quotient (ihleft hq) (ihright hr) (fun s => ?_) fun s => ?_
    · rw [← UnitProduct.get_reciprocal? hinverse]
      exact (UnitProduct.fits_mapExponents? hinverse).get s
    · rw [← UnitProduct.get_div? hdiv]
      exact ((fits_product hq).mul? hmul).get s
  | _ => cases h

/-- A tree whose numbers stay in range is read. -/
theorem product_of_amounts (h : t.Amounts InRange e f) :
    ∃ p, t.product e = .ok p ∧ p.get = f := by
  induction h with
  | one h =>
    refine ⟨.one, ?_, rfl⟩
    rw [product, Expr.integer_eq_ok.2 h]
    rfl
  | word h => exact ⟨.one, by rw [product, if_pos h], rfl⟩
  | var hword h =>
    refine ⟨_, ?_, get_unit_eq_single _⟩
    rw [product, if_neg hword]
    exact single_eq_ok.2 ⟨_, h, rfl⟩
  | unit h => exact ⟨_, single_eq_ok.2 ⟨_, h, rfl⟩, get_unit_eq_single _⟩
  | group _ ih => exact ih
  | power _ hright hrange ih =>
    obtain ⟨p, hp, rfl⟩ := ih
    obtain ⟨r, hr⟩ := UnitProduct.pow?_of_fits hrange
    refine ⟨r, ?_, funext (UnitProduct.get_pow? hr)⟩
    rw [product, Expr.integer_eq_ok.2 hright, ok_bind, hp, ok_bind]
    exact orOverflow_eq_ok.2 hr
  | product _ _ hrange ihleft ihright =>
    obtain ⟨p, hp, rfl⟩ := ihleft
    obtain ⟨q, hq, rfl⟩ := ihright
    obtain ⟨r, hr⟩ := UnitProduct.mul?_of_fits hrange
    refine ⟨r, ?_, funext (UnitProduct.get_mul? hr)⟩
    rw [product, hp, ok_bind, hq, ok_bind]
    exact orOverflow_eq_ok.2 hr
  | reciprocal hleft _ hrange ih =>
    obtain ⟨q, hq, rfl⟩ := ih
    obtain ⟨r, hr⟩ := UnitProduct.reciprocal?_of_fits hrange
    refine ⟨r, ?_, funext (UnitProduct.get_reciprocal? hr)⟩
    rw [product, Expr.integer_eq_ok.2 hleft]
    dsimp only
    rw [if_pos rfl, hq, ok_bind]
    exact orOverflow_eq_ok.2 hr
  | @quotient span left right f g hleft hright hopposite hrange ihleft ihright =>
    obtain ⟨p, hp, rfl⟩ := ihleft
    obtain ⟨q, hq, rfl⟩ := ihright
    cases hinteger : left.integer with
    | ok n =>
      -- the numerator is a one that is read as a number
      obtain ⟨rfl, hone⟩ := hleft.eq_one (Expr.integer_eq_ok.1 hinteger)
      obtain ⟨r, hr⟩ := UnitProduct.reciprocal?_of_fits hopposite
      refine ⟨r, ?_, funext fun s => ?_⟩
      · rw [product, hinteger]
        dsimp only
        rw [if_pos rfl, hq, ok_bind]
        exact orOverflow_eq_ok.2 hr
      · rw [UnitProduct.get_reciprocal? hr, hone]
        exact (zero_sub _).symm
    | error fault =>
      obtain ⟨r, hr⟩ := UnitProduct.div?_of_fits hopposite hrange
      refine ⟨r, ?_, funext (UnitProduct.get_div? hr)⟩
      rw [product, hinteger]
      dsimp only
      rw [hp, ok_bind, hq, ok_bind]
      exact orOverflow_eq_ok.2 hr

/-! ## Texts -/

/-- How often each symbol counts in a text, if every number on the way is `R`. -/
inductive Reads (R : Int → Prop) (t : UnitTable) (text : String) : (String → Int) → Prop where
  | blank (hparse : Expr.parse (Scope.empty .units)
      (String.ofList (UnitText.plain text.toList)) = .ok none) : Reads R t text 0
  | tree {e : Expr} {f : String → Int} (hparse : Expr.parse (Scope.empty .units)
      (String.ofList (UnitText.plain text.toList)) = .ok (some e)) (h : t.Amounts R e f) :
      Reads R t text f

variable {text : String} {bases : String → Prop}

theorem Reads.mono (h : t.Reads R text f) (hR : ∀ n, R n → R' n) : t.Reads R' text f := by
  cases h with
  | blank hparse => exact .blank hparse
  | tree hparse h => exact .tree hparse (h.mono hR)

theorem Reads.unique (h : t.Reads R text f) (h' : t.Reads R' text g) : f = g := by
  cases h with
  | blank hparse =>
    cases h' with
    | blank => rfl
    | tree hparse' => cases hparse.symm.trans hparse'
  | tree hparse h =>
    cases h' with
    | blank hparse' => cases hparse.symm.trans hparse'
    | tree hparse' h' =>
      cases hparse.symm.trans hparse'
      exact h.unique h'

theorem reads_of_parse (h : t.parse text = .ok p) : t.Reads InRange text p.get := by
  obtain ⟨read, hparse, h⟩ := bind_eq_ok.1 h
  cases read with
  | none =>
    cases h
    exact .blank hparse
  | some e => exact .tree hparse (amounts_of_product h)

theorem parse_of_reads (h : t.Reads InRange text f) : ∃ p, t.parse text = .ok p := by
  cases h with
  | blank hparse => exact ⟨.one, by rw [parse, hparse]; rfl⟩
  | tree hparse h =>
    obtain ⟨p, hp, -⟩ := product_of_amounts h
    exact ⟨p, by rw [parse, hparse]; exact hp⟩

theorem canonical_of_parse (ht : t.Integrity bases) (h : t.parse text = .ok p) :
    p.Over t.IsCanonical :=
  (closed_over fun _ entry hentry => ⟨entry, ht.lookup_symbol hentry, rfl⟩).parse h

/-- What is read from a text is what it says in whole numbers of any size, over symbols that stand
for themselves and with no exponent of zero. Only texts all of whose numbers are in range are
read. -/
theorem parse_exact {definitions : List UnitDefinition} (ht : build definitions = .ok t)
    (text : String) :
    (∀ u, t.parse text = .ok u →
      u.Reduced ∧ u.Over t.IsCanonical ∧ ∀ f, t.Reads AnySize text f ↔ f = u.get) ∧
    ((∃ fault, t.parse text = .error fault) ↔ ¬∃ f, t.Reads InRange text f) := by
  constructor
  · intro u hu
    have hreads := reads_of_parse hu
    refine ⟨closed_reduced.parse hu, canonical_of_parse (build_integrity ht) hu, fun f => ?_⟩
    constructor
    · exact fun hf => hf.unique hreads
    · rintro rfl
      exact hreads.mono fun _ _ => trivial
  · cases hparse : t.parse text with
    | ok u =>
      refine ⟨nofun, fun hnone => absurd ⟨_, reads_of_parse hparse⟩ hnone⟩
    | error fault =>
      refine ⟨fun _ => ?_, fun _ => ⟨fault, rfl⟩⟩
      rintro ⟨f, hf⟩
      obtain ⟨u, hu⟩ := parse_of_reads hf
      cases hparse.symm.trans hu

def secondTable : UnitTable := { entries := [("s", ⟨"s", "s", .unit "s", 1, 0⟩)] }

theorem parse_exact_second :
    build [{ name := "s" }] = .ok secondTable ∧
    secondTable.parse "1/s^{2}" = .ok ((UnitProduct.unit "s").pow (-2)) ∧
    ∀ f, secondTable.Reads AnySize "1/s^{2}" f ↔ f = ((UnitProduct.unit "s").pow (-2)).get := by
  have hbuild : build [{ name := "s" }] = .ok secondTable := rfl
  have hparse : secondTable.parse "1/s^{2}" = .ok ((UnitProduct.unit "s").pow (-2)) := by
    decide +kernel
  exact ⟨hbuild, hparse, ((parse_exact hbuild _).1 _ hparse).2.2⟩

def dmnlTable : UnitTable := { entries := [("dmnl", ⟨"dmnl", "dmnl", .unit "dmnl", 1, 0⟩)] }

/-- A unit that is named like a one does not count where it is written as a word. -/
theorem not_counted_dmnl :
    build [{ name := "dmnl" }] = .ok dmnlTable ∧ dmnlTable.IsCanonical "dmnl" ∧
    dmnlTable.parse "dmnl" = .ok .one ∧ UnitProduct.one.get "dmnl" ≠ 1 := by
  refine ⟨rfl, by decide, ?_, by decide⟩
  decide +kernel

end UnitTable

end Worksheet
