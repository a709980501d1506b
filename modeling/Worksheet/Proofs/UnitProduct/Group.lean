import Worksheet.Proofs.UnitProduct.Reduced
/-!
# The partial group of unit products

Products are multiplied by adding their exponents, as long as all sums are in range. Where a checked
operation has a result it is the exact one, and the operation that keeps exponents in range gives
the same.
-/

namespace Worksheet

variable {e : Int}

theorem clampExponent_of_fits (h : fitsExponent e) : clampExponent e = e := by
  obtain ⟨hlow, hhigh⟩ := fitsExponent_iff.1 h
  rw [clampExponent, min_eq_left hhigh, max_eq_right hlow]

theorem fits_clampExponent (e : Int) : fitsExponent (clampExponent e) := by
  have hrange : minExponent ≤ maxExponent := by decide
  exact fitsExponent_iff.2 ⟨le_max_left _ _, max_le hrange (min_le_right _ _)⟩

theorem clampExponent_ne_zero (h : e ≠ 0) : clampExponent e ≠ 0 := by
  simp only [clampExponent, minExponent, maxExponent]
  omega

/-- The exponent without an opposite is the only one. -/
theorem fits_neg_iff (h : fitsExponent e) : fitsExponent (-e) ↔ e ≠ minExponent := by
  rw [fitsExponent_iff] at h ⊢
  simp only [minExponent, maxExponent] at h ⊢
  omega

namespace UnitProduct

variable {p q r a b : UnitProduct} {n : Int}

/-- No exponent is zero or out of range. -/
structure Normal (p : UnitProduct) : Prop where
  reduced : p.Reduced
  fits : p.Fits

theorem normal_one : one.Normal :=
  ⟨fun _ hf => absurd hf List.not_mem_nil, fun _ hf => absurd hf List.not_mem_nil⟩

theorem normal_unit (symbol : String) : (unit symbol).Normal :=
  ⟨reduced_unit symbol, fits_unit symbol⟩

theorem Normal.set (hp : p.Normal) (symbol : String) (he : fitsExponent e) :
    (p.set symbol e).Normal :=
  ⟨hp.reduced.set symbol e, hp.fits.set symbol he⟩

theorem eq_iff_get (hp : p.Normal) (hq : q.Normal) : p = q ↔ ∀ s, p.get s = q.get s :=
  ⟨fun h _ => h ▸ rfl, ext_get hp.reduced hq.reduced⟩

/-! ## Exponents kept in range -/

theorem normal_mapExponents {f : Int → Int} (hf : ∀ e, e ≠ 0 → f e ≠ 0) (hp : p.Normal) :
    (p.mapExponents fun e => clampExponent (f e)).Normal := by
  constructor
  · intro g hg
    obtain ⟨g', hg', rfl⟩ := List.mem_map.1 hg
    exact clampExponent_ne_zero (hf _ (hp.reduced g' hg'))
  · intro g hg
    obtain ⟨g', -, rfl⟩ := List.mem_map.1 hg
    exact fits_clampExponent _

theorem normal_reciprocal (hp : p.Normal) : p.reciprocal.Normal :=
  normal_mapExponents (fun _ => neg_ne_zero.2) hp

theorem normal_pow (hp : p.Normal) (n : Int) : (p.pow n).Normal := by
  unfold pow
  split
  · exact normal_one
  · rename_i hn
    exact normal_mapExponents (fun e he => mul_ne_zero he hn) hp

theorem normal_mul (hp : p.Normal) (q : UnitProduct) : (p.mul q).Normal := by
  unfold mul
  exact List.foldlRecOn q.factors _ hp fun _ hr f _ => hr.set f.1 (fits_clampExponent _)

theorem normal_div (hp : p.Normal) (q : UnitProduct) : (p.div q).Normal :=
  normal_mul hp q.reciprocal

/-- Factors with an exponent of zero are left out, whatever stands for their symbols elsewhere. -/
theorem normal_ofList {fs : Factors} (h : ∀ f ∈ fs, fitsExponent f.2) : (ofList fs).Normal := by
  unfold ofList
  refine List.foldlRecOn (motive := Normal) (fs.filter fun f => f.2 != 0) _ normal_one
    fun p hp f hf => ?_
  obtain ⟨hmem, hne⟩ := List.mem_filter.1 hf
  have hput : p.set f.1 f.2 = p.put f.1 f.2 := if_neg (by simpa using hne)
  exact hput ▸ hp.set f.1 (h f hmem)

/-! ## Operations that may have no result -/

/-- What an operation has a result for, the exponents of the result, and that the operation that
keeps exponents in range gives the same. -/
structure Computes (checked? : Option UnitProduct) (clamped : UnitProduct) (defined : Prop)
    (exponent : String → Int) : Prop where
  isSome_iff : checked?.isSome ↔ defined
  get : ∀ r, checked? = some r → ∀ s, r.get s = exponent s
  normal : ∀ r, checked? = some r → r.Normal
  clamped_normal : clamped.Normal
  clamped_eq : ∀ r, checked? = some r → clamped = r

/-- Operations with the same exponents have the same results. -/
theorem Computes.unique {checked? checked?' : Option UnitProduct} {clamped clamped' : UnitProduct}
    {defined : Prop} {exponent : String → Int} (h : Computes checked? clamped defined exponent)
    (h' : Computes checked?' clamped' defined exponent) : checked? = checked?' := by
  have hsome : checked?.isSome ↔ checked?'.isSome := h.isSome_iff.trans h'.isSome_iff.symm
  cases hr : checked? with
  | none =>
    cases hr' : checked?' with
    | none => rfl
    | some r' => simp [hr, hr'] at hsome
  | some r =>
    obtain ⟨r', hr'⟩ := Option.isSome_iff_exists.1 (hsome.1 (hr ▸ rfl))
    have heq : r = r' := ext_get (h.normal r hr).reduced (h'.normal r' hr').reduced fun s =>
      (h.get r hr s).trans (h'.get r' hr' s).symm
    rw [hr', heq]

theorem mapExponents?_eq_some {f : Int → Int} (h : p.mapExponents? f = some r) :
    (∀ g ∈ p.factors, fitsExponent (f g.2)) ∧ p.mapExponents f = r := by
  unfold mapExponents? at h
  split at h
  · rename_i hall
    exact ⟨List.all_eq_true.1 hall, Option.some.inj h⟩
  · cases h

theorem mapExponents_clamp {f : Int → Int} (h : ∀ g ∈ p.factors, fitsExponent (f g.2)) :
    (p.mapExponents fun e => clampExponent (f e)) = p.mapExponents f := by
  have hfactors : (p.factors.mapExponents fun e => clampExponent (f e)) =
      p.factors.mapExponents f :=
    List.map_congr_left fun g hg => congrArg (Prod.mk g.1) (clampExponent_of_fits (h g hg))
  unfold mapExponents
  simp only [hfactors]

theorem computes_reciprocal (hp : p.Normal) :
    Computes p.reciprocal? p.reciprocal (∀ s, fitsExponent (-p.get s)) fun s => -p.get s where
  isSome_iff := by
    rw [Option.isSome_iff_exists]
    refine ⟨fun ⟨r, hr⟩ s => ?_, reciprocal?_of_fits⟩
    rw [← get_reciprocal? hr]
    exact (fits_mapExponents? hr).get s
  get _ := get_reciprocal?
  normal _ hr := ⟨hp.reduced.reciprocal? hr, fits_mapExponents? hr⟩
  clamped_normal := normal_reciprocal hp
  clamped_eq r hr := by
    obtain ⟨hfits, rfl⟩ := mapExponents?_eq_some hr
    exact mapExponents_clamp hfits

theorem computes_pow (hp : p.Normal) (n : Int) :
    Computes (p.pow? n) (p.pow n) (∀ s, fitsExponent (p.get s * n)) fun s => p.get s * n where
  isSome_iff := by
    rw [Option.isSome_iff_exists]
    refine ⟨fun ⟨r, hr⟩ s => ?_, pow?_of_fits⟩
    rw [← get_pow? hr]
    exact (fits_pow? hr).get s
  get _ := get_pow?
  normal r hr := by
    refine ⟨?_, fits_pow? hr⟩
    by_cases hn : n = 0
    · subst hn
      cases hr
      exact normal_one.reduced
    · exact hp.reduced.pow? hn hr
  clamped_normal := normal_pow hp n
  clamped_eq r hr := by
    unfold pow? at hr
    unfold pow
    by_cases hn : n = 0
    · rw [if_pos hn] at hr ⊢
      exact Option.some.inj hr
    · rw [if_neg hn] at hr ⊢
      obtain ⟨hfits, rfl⟩ := mapExponents?_eq_some hr
      exact mapExponents_clamp hfits

/-- As long as all sums are in range, nothing is lost by keeping them there. -/
theorem mul_eq_of_mul? (h : p.mul? q = some r) : p.mul q = r := by
  unfold mul? at h
  unfold mul
  generalize q.factors = fs at h
  induction fs generalizing p with
  | nil =>
    cases h
    rfl
  | cons f fs ih =>
    rw [List.foldlM_cons] at h
    obtain ⟨next, hnext, hrest⟩ := Option.bind_eq_some_iff.1 h
    obtain ⟨e, he, rfl⟩ := Option.map_eq_some_iff.1 hnext
    unfold exponent? at he
    split at he
    · rename_i hfits
      cases he
      have hclamped : clampExponent (f.2 + p.get f.1) = f.2 + p.get f.1 :=
        clampExponent_of_fits hfits
      rw [List.foldl_cons]
      dsimp only
      rw [hclamped]
      exact ih hrest
    · cases he

theorem computes_mul (hp : p.Normal) (q : UnitProduct) :
    Computes (p.mul? q) (p.mul q) (∀ s, fitsExponent (p.get s + q.get s))
      fun s => p.get s + q.get s where
  isSome_iff := by
    rw [Option.isSome_iff_exists]
    refine ⟨fun ⟨r, hr⟩ s => ?_, mul?_of_fits⟩
    rw [← get_mul? hr]
    exact (hp.fits.mul? hr).get s
  get _ := get_mul?
  normal _ hr := ⟨hp.reduced.mul? hr, hp.fits.mul? hr⟩
  clamped_normal := normal_mul hp q
  clamped_eq _ := mul_eq_of_mul?

/-- A quotient needs the reciprocal of the divisor. -/
theorem computes_div (hp : p.Normal) (hq : q.Normal) :
    Computes (p.div? q) (p.div q)
      ((∀ s, q.get s ≠ minExponent) ∧ ∀ s, fitsExponent (p.get s - q.get s))
      fun s => p.get s - q.get s where
  isSome_iff := by
    have hopposites : (∀ s, fitsExponent (-q.get s)) ↔ ∀ s, q.get s ≠ minExponent :=
      forall_congr' fun s => fits_neg_iff (hq.fits.get s)
    rw [← hopposites, Option.isSome_iff_exists]
    refine ⟨fun ⟨r, hr⟩ => ⟨fun s => ?_, fun s => ?_⟩, fun h => div?_of_fits h.1 h.2⟩
    · obtain ⟨inverse, hinverse, -⟩ := Option.bind_eq_some_iff.1 hr
      rw [← get_reciprocal? hinverse]
      exact (fits_mapExponents? hinverse).get s
    · obtain ⟨inverse, -, hmul⟩ := Option.bind_eq_some_iff.1 hr
      rw [← get_div? hr]
      exact (hp.fits.mul? hmul).get s
  get _ := get_div?
  normal r hr := by
    obtain ⟨inverse, -, hmul⟩ := Option.bind_eq_some_iff.1 hr
    exact ⟨hp.reduced.mul? hmul, hp.fits.mul? hmul⟩
  clamped_normal := normal_div hp q
  clamped_eq r hr := by
    obtain ⟨inverse, hinverse, hmul⟩ := Option.bind_eq_some_iff.1 hr
    rw [div, (computes_reciprocal hq).clamped_eq inverse hinverse]
    exact mul_eq_of_mul? hmul

/-! ## Laws -/

theorem mul?_comm (hp : p.Normal) (hq : q.Normal) : p.mul? q = q.mul? p := by
  have hcomm := computes_mul hq p
  simp only [add_comm (q.get _)] at hcomm
  exact (computes_mul hp q).unique hcomm

theorem pow?_one (hp : p.Normal) : p.pow? 1 = some p := by
  obtain ⟨r, hr⟩ := pow?_of_fits fun s => by
    rw [mul_one]
    exact hp.fits.get s
  have hget : ∀ s, r.get s = p.get s := fun s => by rw [get_pow? hr, mul_one]
  rw [hr, (eq_iff_get ((computes_pow hp 1).normal r hr) hp).2 hget]

theorem mul?_one (p : UnitProduct) : p.mul? one = some p := rfl

theorem one_mul? (hp : p.Normal) : one.mul? p = some p := mul?_comm normal_one hp

/-- If both inner products exist, the outer ones are the same, or neither exists. -/
theorem mul?_assoc (hp : p.Normal) (hab : p.mul? q = some a)
    (hbc : q.mul? r = some b) : a.mul? r = p.mul? b := by
  have ha := computes_mul ((computes_mul hp q).normal a hab) r
  have hb := computes_mul hp b
  simp only [get_mul? hab] at ha
  simp only [get_mul? hbc, ← add_assoc] at hb
  exact ha.unique hb

theorem mul?_reciprocal (hp : p.Normal) (ha : p.reciprocal? = some a) : p.mul? a = some one := by
  have hinverse := computes_mul hp a
  have hone := computes_mul normal_one one
  simp only [get_reciprocal? ha, add_neg_cancel] at hinverse
  exact hinverse.unique hone

/-- The laws of multiplication, and what each operation has a result for. -/
structure PartialGroup (p q r : UnitProduct) (n : Int) : Prop where
  eq_iff : p = q ↔ ∀ s, p.get s = q.get s
  mul : Computes (p.mul? q) (p.mul q) (∀ s, fitsExponent (p.get s + q.get s))
    fun s => p.get s + q.get s
  div : Computes (p.div? q) (p.div q)
    ((∀ s, q.get s ≠ minExponent) ∧ ∀ s, fitsExponent (p.get s - q.get s))
    fun s => p.get s - q.get s
  reciprocal : Computes p.reciprocal? p.reciprocal (∀ s, fitsExponent (-p.get s))
    fun s => -p.get s
  pow : Computes (p.pow? n) (p.pow n) (∀ s, fitsExponent (p.get s * n)) fun s => p.get s * n
  comm : p.mul? q = q.mul? p
  mul_one : p.mul? one = some p
  one_mul : one.mul? p = some p
  assoc : ∀ a b, p.mul? q = some a → q.mul? r = some b → a.mul? r = p.mul? b
  inverse : ∀ a, p.reciprocal? = some a → p.mul? a = some one

/-- Products without exponents of zero are a partial commutative group over exponents of 32 bits,
and every list of factors makes one. -/
theorem partialGroup_of_normal (hp : p.Normal) (hq : q.Normal) (r : UnitProduct) (n : Int) :
    PartialGroup p q r n ∧ ∀ fs : Factors, (∀ f ∈ fs, fitsExponent f.2) → (ofList fs).Normal := by
  refine ⟨?_, fun fs => normal_ofList⟩
  exact {
    eq_iff := eq_iff_get hp hq
    mul := computes_mul hp q
    div := computes_div hp hq
    reciprocal := computes_reciprocal hp
    pow := computes_pow hp n
    comm := mul?_comm hp hq
    mul_one := mul?_one p
    one_mul := one_mul? hp
    assoc := fun _ _ => mul?_assoc hp
    inverse := fun _ => mul?_reciprocal hp }

/-- The greatest and the smallest exponent. -/
def extremes : UnitProduct := ofList [("m", maxExponent), ("s", minExponent)]

/-- One more meter is too much, and there is no reciprocal. -/
theorem partialGroup_extremes :
    extremes.Normal ∧ (unit "m").Normal ∧ PartialGroup extremes (unit "m") one 1 ∧
      extremes.mul? (unit "m") = none ∧ extremes.reciprocal? = none := by
  have hextremes : extremes.Normal := normal_ofList (by decide)
  have hgroup := (partialGroup_of_normal hextremes (normal_unit "m") one 1).1
  exact ⟨hextremes, normal_unit "m", hgroup, by decide +kernel, by decide +kernel⟩

end UnitProduct

end Worksheet
