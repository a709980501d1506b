import Worksheet.Proofs.UnitProduct.Exponents
/-!
# Reduced products

Products that write no exponent of zero down are equal if all exponents are, and the operations keep
them so. An operation gives a result if all exponents of the result are in range.
-/

namespace Worksheet

theorem fitsExponent_iff {e : Int} : fitsExponent e ↔ minExponent ≤ e ∧ e ≤ maxExponent := by
  simp [fitsExponent]

/-- A number whose opposite is in range too. -/
theorem fitsExponent_of_le {e : Int} (hlow : -maxExponent ≤ e) (hhigh : e ≤ maxExponent) :
    fitsExponent e := by
  have hmin : minExponent ≤ e := le_trans (by decide) hlow
  simp [fitsExponent, hmin, hhigh]

/-- An exponent that a unit can be shown with: not zero, and not the one without an opposite. -/
def IsExponent (e : Int) : Prop := e ≠ 0 ∧ minExponent < e ∧ e ≤ maxExponent

instance (e : Int) : Decidable (IsExponent e) :=
  inferInstanceAs (Decidable (e ≠ 0 ∧ minExponent < e ∧ e ≤ maxExponent))

theorem isExponent_one : IsExponent 1 := ⟨one_ne_zero, by decide, by decide⟩

theorem IsExponent.neg_le {e : Int} (h : IsExponent e) : -maxExponent ≤ e := h.2.1

theorem IsExponent.neg {e : Int} (h : IsExponent e) : IsExponent (-e) := by
  have hlow : minExponent < -e := Int.neg_le_neg h.2.2
  exact ⟨neg_ne_zero.2 h.1, hlow, neg_le_of_neg_le h.neg_le⟩

theorem exponent?_of_fits {e : Int} (h : fitsExponent e) : exponent? e = some e := by
  rw [exponent?, if_pos h]

namespace Factors

variable {fs gs : Factors}

theorem exponent_of_mem (h : fs.Sorted) {f : String × Int} (hf : f ∈ fs) :
    fs.exponent f.1 = f.2 := by
  induction fs with
  | nil => cases hf
  | cons g fs ih =>
    rw [exponent_cons]
    rcases List.mem_cons.1 hf with rfl | hf
    · rw [if_pos rfl]
    · have hlt := (List.pairwise_cons.1 h).1 f hf
      have hne : f.1 ≠ g.1 := fun heq => String.lt_irrefl _ (heq ▸ hlt)
      rw [if_neg hne, ih h.tail hf]

/-- The first factors are the same if all exponents are. -/
theorem Sorted.head_symbol {f g : String × Int} (hf : Sorted (f :: fs)) (hg : Sorted (g :: gs))
    (hf0 : f.2 ≠ 0) (hg0 : g.2 ≠ 0)
    (h : ∀ s, exponent (f :: fs) s = exponent (g :: gs) s) : f.1 = g.1 := by
  have hnot : ¬f.1 < g.1 := fun hlt => by
    have heq := h f.1
    rw [hg.exponent_of_lt hlt, exponent_of_mem hf List.mem_cons_self] at heq
    exact hf0 heq
  have hnot' : ¬g.1 < f.1 := fun hlt => by
    have heq := h g.1
    rw [hf.exponent_of_lt hlt, exponent_of_mem hg List.mem_cons_self] at heq
    exact hg0 heq.symm
  exact String.le_antisymm (String.not_lt.1 hnot') (String.not_lt.1 hnot)

theorem ext_exponent (hf : fs.Sorted) (hg : gs.Sorted) (hf0 : ∀ f ∈ fs, f.2 ≠ 0)
    (hg0 : ∀ g ∈ gs, g.2 ≠ 0) (h : ∀ s, fs.exponent s = gs.exponent s) : fs = gs := by
  induction fs generalizing gs with
  | nil =>
    cases gs with
    | nil => rfl
    | cons g gs =>
      have heq := h g.1
      rw [exponent_of_mem hg List.mem_cons_self] at heq
      exact absurd heq.symm (hg0 g List.mem_cons_self)
  | cons f fs ih =>
    cases gs with
    | nil =>
      have heq := h f.1
      rw [exponent_of_mem hf List.mem_cons_self] at heq
      exact absurd heq (hf0 f List.mem_cons_self)
    | cons g gs =>
      have hsymbol := hf.head_symbol hg (hf0 f List.mem_cons_self) (hg0 g List.mem_cons_self) h
      have hexponent : f.2 = g.2 := by
        rw [← exponent_of_mem hf List.mem_cons_self, h, hsymbol,
          exponent_of_mem hg List.mem_cons_self]
      have htail : ∀ s, exponent fs s = exponent gs s := by
        intro s
        by_cases hs : s = f.1
        · rw [hs, hf.exponent_head, hsymbol, hg.exponent_head]
        · have heq := h s
          rwa [exponent_cons, exponent_cons, if_neg hs, if_neg (hsymbol ▸ hs)] at heq
      rw [Prod.ext hsymbol hexponent, ih hf.tail hg.tail
        (fun f hf => hf0 f (List.mem_cons_of_mem _ hf))
        (fun g hg => hg0 g (List.mem_cons_of_mem _ hg)) htail]

/-! ## Amounts -/

/-- The sum of all exponents of a symbol in a list of factors. -/
def amount (fs : Factors) (symbol : String) : Int := fs.total fun s => if symbol = s then 1 else 0

theorem amount_cons (f : String × Int) (fs : Factors) (s : String) :
    amount (f :: fs) s = (if s = f.1 then f.2 else 0) + amount fs s := by
  rw [amount, total_cons]
  by_cases h : s = f.1
  · rw [if_pos h, if_pos h, mul_one, amount]
  · rw [if_neg h, if_neg h, mul_zero, amount]

theorem amount_single (symbol : String) (e : Int) (s : String) :
    amount [(symbol, e)] s = if s = symbol then e else 0 := by
  rw [amount_cons]
  exact add_zero _

theorem amount_append (fs gs : Factors) (s : String) :
    amount (fs ++ gs) s = amount fs s + amount gs s := by
  induction fs with
  | nil => exact (zero_add _).symm
  | cons f fs ih => rw [List.cons_append, amount_cons, amount_cons, ih, add_assoc]

theorem amount_perm (h : fs.Perm gs) (s : String) : amount fs s = amount gs s := by
  induction h with
  | nil => rfl
  | cons f _ ih => rw [amount_cons, amount_cons, ih]
  | swap f g fs =>
    simp only [amount_cons]
    ring
  | trans _ _ ih ih' => rw [ih, ih']

theorem amount_eq_zero {s : String} (h : s ∉ fs.map Prod.fst) : amount fs s = 0 := by
  induction fs with
  | nil => rfl
  | cons f fs ih =>
    rw [List.map_cons, List.mem_cons, not_or] at h
    rw [amount_cons, if_neg h.1, zero_add, ih h.2]

/-- The factors of the reciprocal. -/
def opposite (fs : Factors) : Factors := fs.map fun f => (f.1, -f.2)

theorem amount_opposite (fs : Factors) (s : String) : amount fs.opposite s = -amount fs s := by
  induction fs with
  | nil => rfl
  | cons f fs ih =>
    have hcons : opposite (f :: fs) = (f.1, -f.2) :: opposite fs := rfl
    rw [hcons, amount_cons, amount_cons, ih]
    by_cases h : s = f.1
    · rw [if_pos h, if_pos h]
      ring
    · rw [if_neg h, if_neg h]
      ring

/-- Every symbol occurs once, with an exponent that can be shown. -/
def Fitting (fs : Factors) : Prop := (fs.map Prod.fst).Nodup ∧ ∀ f ∈ fs, IsExponent f.2

theorem Fitting.of_append_left (h : Fitting (fs ++ gs)) : Fitting fs := by
  obtain ⟨hnodup, hexponents⟩ := h
  rw [List.map_append] at hnodup
  exact ⟨(List.nodup_append.1 hnodup).1, fun f hf => hexponents f (List.mem_append_left gs hf)⟩

theorem Fitting.of_append_right (h : Fitting (fs ++ gs)) : Fitting gs := by
  obtain ⟨hnodup, hexponents⟩ := h
  rw [List.map_append] at hnodup
  exact ⟨(List.nodup_append.1 hnodup).2.1, fun f hf => hexponents f (List.mem_append_right fs hf)⟩

theorem Fitting.perm (h : Fitting fs) (hperm : fs.Perm gs) : Fitting gs :=
  ⟨(hperm.map Prod.fst).nodup_iff.1 h.1, fun f hf => h.2 f (hperm.mem_iff.2 hf)⟩

theorem Fitting.opposite (h : Fitting fs) : Fitting fs.opposite := by
  constructor
  · have hsymbols : (Factors.opposite fs).map Prod.fst = fs.map Prod.fst := by
      simp [Factors.opposite]
    rw [hsymbols]
    exact h.1
  · intro f hf
    obtain ⟨g, hg, rfl⟩ := List.mem_map.1 hf
    exact (h.2 g hg).neg

theorem Fitting.amount_le (h : Fitting fs) (s : String) :
    -maxExponent ≤ amount fs s ∧ amount fs s ≤ maxExponent := by
  induction fs with
  | nil =>
    change -maxExponent ≤ 0 ∧ 0 ≤ maxExponent
    decide
  | cons f fs ih =>
    have hhead := List.nodup_cons.1 h.1
    have hrest : Fitting fs := ⟨hhead.2, fun g hg => h.2 g (List.mem_cons_of_mem _ hg)⟩
    rw [amount_cons]
    by_cases hs : s = f.1
    · rw [if_pos hs, hs, amount_eq_zero hhead.1, add_zero]
      have he := h.2 f List.mem_cons_self
      exact ⟨he.neg_le, he.2.2⟩
    · rw [if_neg hs, zero_add]
      exact ih hrest

theorem Fitting.fits (h : Fitting fs) (s : String) : fitsExponent (amount fs s) :=
  fitsExponent_of_le (h.amount_le s).1 (h.amount_le s).2

end Factors

namespace UnitProduct

variable {p q r : UnitProduct} {symbol : String} {e n : Int}

/-- Every factor has an exponent. -/
def Reduced (p : UnitProduct) : Prop := ∀ f ∈ p.factors, f.2 ≠ 0

theorem ext_get (hp : p.Reduced) (hq : q.Reduced) (h : ∀ s, p.get s = q.get s) : p = q := by
  obtain ⟨fs, hfs⟩ := p
  obtain ⟨gs, hgs⟩ := q
  obtain rfl : fs = gs := Factors.ext_exponent hfs hgs hp hq h
  rfl

theorem get_of_mem {f : String × Int} (hf : f ∈ p.factors) : p.get f.1 = f.2 :=
  Factors.exponent_of_mem p.sorted hf

theorem mem_of_get_ne_zero (h : p.get symbol ≠ 0) : (symbol, p.get symbol) ∈ p.factors := by
  unfold get at h ⊢
  cases hlookup : p.factors.lookup symbol with
  | none => simp [hlookup] at h
  | some e =>
    obtain ⟨before, after, hfactors, -⟩ := List.lookup_eq_some_iff.1 hlookup
    simp [hfactors]

theorem get_set (p : UnitProduct) (symbol : String) (e : Int) (s : String) :
    (p.set symbol e).get s = if s = symbol then e else p.get s := by
  rw [get_eq_total, total_set, ← get_eq_total]
  by_cases hs : s = symbol
  · rw [if_pos hs, if_pos hs, hs]
    ring
  · rw [if_neg hs, if_neg hs]
    ring

/-! ## What keeps products reduced -/

theorem reduced_unit (symbol : String) : (unit symbol).Reduced := by
  intro f hf
  obtain rfl : f = (symbol, 1) := List.mem_singleton.1 hf
  exact one_ne_zero

theorem Reduced.set (hp : p.Reduced) (symbol : String) (e : Int) : (p.set symbol e).Reduced := by
  unfold UnitProduct.set
  by_cases he : e = 0
  · rw [if_pos he]
    exact fun f hf => hp f (List.mem_filter.1 hf).1
  · rw [if_neg he]
    intro f hf
    rcases Factors.mem_put hf with rfl | hf
    · exact he
    · exact hp f hf

theorem Reduced.mapExponents? {f : Int → Int} (hp : p.Reduced) (hf : ∀ e, e ≠ 0 → f e ≠ 0)
    (h : p.mapExponents? f = some r) : r.Reduced := by
  unfold UnitProduct.mapExponents? at h
  split at h
  · cases h
    intro g hg
    obtain ⟨g', hg', rfl⟩ := List.mem_map.1 hg
    exact hf g'.2 (hp g' hg')
  · cases h

theorem Reduced.pow? (hp : p.Reduced) (hn : n ≠ 0) (h : p.pow? n = some r) : r.Reduced := by
  rw [UnitProduct.pow?, if_neg hn] at h
  exact hp.mapExponents? (fun e he => mul_ne_zero he hn) h

theorem Reduced.reciprocal? (hp : p.Reduced) (h : p.reciprocal? = some r) : r.Reduced :=
  hp.mapExponents? (fun _ he => neg_ne_zero.2 he) h

theorem Reduced.foldlM {fs : Factors} (hp : p.Reduced)
    (h : fs.foldlM (fun r f => (exponent? (f.2 + r.get f.1)).map (r.set f.1)) p = some r) :
    r.Reduced := by
  induction fs generalizing p with
  | nil =>
    cases h
    exact hp
  | cons f fs ih =>
    rw [List.foldlM_cons] at h
    obtain ⟨next, hnext, hrest⟩ := Option.bind_eq_some_iff.1 h
    obtain ⟨e, -, rfl⟩ := Option.map_eq_some_iff.1 hnext
    exact ih (hp.set f.1 e) hrest

theorem Reduced.mul? (hp : p.Reduced) (h : p.mul? q = some r) : r.Reduced := hp.foldlM h

/-! ## What keeps exponents in range -/

def Fits (p : UnitProduct) : Prop := ∀ f ∈ p.factors, fitsExponent f.2

theorem fits_unit (symbol : String) : (unit symbol).Fits := by
  intro f hf
  obtain rfl : f = (symbol, 1) := List.mem_singleton.1 hf
  exact (by decide : fitsExponent 1)

theorem Fits.get (hp : p.Fits) (symbol : String) : fitsExponent (p.get symbol) := by
  by_cases hzero : p.get symbol = 0
  · rw [hzero]
    decide
  · exact hp _ (mem_of_get_ne_zero hzero)

theorem Fits.set (hp : p.Fits) (symbol : String) (he : fitsExponent e) : (p.set symbol e).Fits := by
  unfold UnitProduct.set
  by_cases hzero : e = 0
  · rw [if_pos hzero]
    exact fun f hf => hp f (List.mem_filter.1 hf).1
  · rw [if_neg hzero]
    intro f hf
    rcases Factors.mem_put hf with rfl | hf
    · exact he
    · exact hp f hf

theorem fits_mapExponents? {f : Int → Int} (h : p.mapExponents? f = some r) : r.Fits := by
  unfold UnitProduct.mapExponents? at h
  split at h
  · rename_i hall
    cases h
    intro g hg
    obtain ⟨g', hg', rfl⟩ := List.mem_map.1 hg
    exact List.all_eq_true.1 hall g' hg'
  · cases h

theorem fits_pow? (h : p.pow? n = some r) : r.Fits := by
  unfold UnitProduct.pow? at h
  split at h
  · cases h
    exact fun f hf => by cases hf
  · exact fits_mapExponents? h

theorem Fits.mul? (hp : p.Fits) (h : p.mul? q = some r) : r.Fits := by
  unfold UnitProduct.mul? at h
  generalize q.factors = fs at h
  induction fs generalizing p with
  | nil =>
    cases h
    exact hp
  | cons f fs ih =>
    rw [List.foldlM_cons] at h
    obtain ⟨next, hnext, hrest⟩ := Option.bind_eq_some_iff.1 h
    obtain ⟨e, he, rfl⟩ := Option.map_eq_some_iff.1 hnext
    unfold exponent? at he
    split at he
    · rename_i hfits
      cases he
      exact ih (hp.set f.1 hfits) hrest
    · cases he

/-! ## What has a result -/

theorem mapExponents?_of_fits {f : Int → Int} (h : ∀ s, fitsExponent (f (p.get s))) :
    ∃ r, p.mapExponents? f = some r := by
  refine ⟨p.mapExponents f, ?_⟩
  rw [mapExponents?, if_pos]
  rw [List.all_eq_true]
  intro g hg
  have hfits := h g.1
  rwa [get_of_mem hg] at hfits

theorem pow?_of_fits (h : ∀ s, fitsExponent (p.get s * n)) : ∃ r, p.pow? n = some r := by
  by_cases hn : n = 0
  · exact ⟨one, by rw [pow?, if_pos hn]⟩
  · rw [pow?, if_neg hn]
    exact mapExponents?_of_fits h

theorem reciprocal?_of_fits (h : ∀ s, fitsExponent (-p.get s)) : ∃ r, p.reciprocal? = some r :=
  mapExponents?_of_fits h

/-- Factors with different symbols can be multiplied in if every sum of exponents is in range. -/
theorem foldlM_of_fits {fs : Factors} (hfs : fs.Sorted)
    (h : ∀ s, fitsExponent (p.get s + fs.exponent s)) :
    ∃ r, fs.foldlM (fun r f => (exponent? (f.2 + r.get f.1)).map (r.set f.1)) p = some r := by
  induction fs generalizing p with
  | nil => exact ⟨p, rfl⟩
  | cons f fs ih =>
    have hfirst := h f.1
    rw [Factors.exponent_of_mem hfs List.mem_cons_self, add_comm] at hfirst
    have hothers : ∀ s,
        fitsExponent ((p.set f.1 (f.2 + p.get f.1)).get s + Factors.exponent fs s) := by
      intro s
      rw [get_set]
      by_cases hs : s = f.1
      · rw [if_pos hs, hs, hfs.exponent_head, add_zero]
        exact hfirst
      · have hfits := h s
        rw [Factors.exponent_cons, if_neg hs] at hfits
        rw [if_neg hs]
        exact hfits
    obtain ⟨r, hr⟩ := ih hfs.tail hothers
    refine ⟨r, ?_⟩
    rw [List.foldlM_cons, exponent?_of_fits hfirst]
    exact hr

theorem mul?_of_fits (h : ∀ s, fitsExponent (p.get s + q.get s)) : ∃ r, p.mul? q = some r :=
  foldlM_of_fits q.sorted h

theorem div?_of_fits (hq : ∀ s, fitsExponent (-q.get s))
    (h : ∀ s, fitsExponent (p.get s - q.get s)) : ∃ r, p.div? q = some r := by
  obtain ⟨inverse, hinverse⟩ := reciprocal?_of_fits hq
  rw [div?, hinverse]
  refine mul?_of_fits fun s => ?_
  rw [get_reciprocal? hinverse, ← sub_eq_add_neg]
  exact h s

end UnitProduct

end Worksheet
