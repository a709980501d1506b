import Worksheet.UnitProduct
import Mathlib.Tactic.Ring
/-!
# Exponents of unit products

A product is read through weighted sums of its exponents. Every operation is linear in them, and
the exponent of one symbol is such a sum.
-/

namespace Worksheet

namespace Factors

variable {fs : Factors} {symbol : String} {e : Int} {w : String → Int}

/-- The sum of the exponents, each times the weight of its symbol. -/
def total (w : String → Int) (fs : Factors) : Int := (fs.map fun f => f.2 * w f.1).sum

@[simp] theorem total_nil (w : String → Int) : total w [] = 0 := rfl

@[simp] theorem total_cons (w : String → Int) (f : String × Int) (fs : Factors) :
    total w (f :: fs) = f.2 * w f.1 + total w fs := by
  simp [total]

theorem total_congr {w' : String → Int} (h : ∀ f ∈ fs, w f.1 = w' f.1) :
    fs.total w = fs.total w' := by
  induction fs with
  | nil => rfl
  | cons f fs ih =>
      rw [total_cons, total_cons, h f List.mem_cons_self,
        ih fun g hg => h g (List.mem_cons_of_mem _ hg)]

/-- The exponent of a symbol, which is zero if it does not occur. -/
def exponent (fs : Factors) (symbol : String) : Int := (fs.lookup symbol).getD 0

@[simp] theorem exponent_nil (symbol : String) : exponent [] symbol = 0 := rfl

theorem exponent_cons (f : String × Int) (fs : Factors) (symbol : String) :
    exponent (f :: fs) symbol = if symbol = f.1 then f.2 else fs.exponent symbol := by
  obtain ⟨s, e⟩ := f
  unfold exponent
  by_cases h : symbol = s
  · subst h
    simp
  · have hne : (symbol == s) = false := by simpa using h
    simp [List.lookup_cons, hne, h]

theorem exponent_eq_zero (h : ∀ f ∈ fs, f.1 ≠ symbol) : fs.exponent symbol = 0 := by
  induction fs with
  | nil => rfl
  | cons f fs ih =>
      rw [exponent_cons, if_neg (h f List.mem_cons_self).symm,
        ih fun g hg => h g (List.mem_cons_of_mem _ hg)]

theorem Sorted.exponent_head {f : String × Int} (h : Sorted (f :: fs)) :
    fs.exponent f.1 = 0 :=
  exponent_eq_zero fun g hg heq =>
    absurd ((List.pairwise_cons.1 h).1 g hg) (heq ▸ String.lt_irrefl _)

theorem Sorted.tail {f : String × Int} (h : Sorted (f :: fs)) : Sorted fs :=
  (List.pairwise_cons.1 h).2

/-- A symbol below the first one does not occur. -/
theorem Sorted.exponent_of_lt {f : String × Int} (h : Sorted (f :: fs)) (hlt : symbol < f.1) :
    exponent (f :: fs) symbol = 0 := by
  refine exponent_eq_zero fun g hg heq => ?_
  subst heq
  rcases List.mem_cons.1 hg with rfl | hg
  · exact String.lt_irrefl _ hlt
  · exact String.lt_asymm hlt ((List.pairwise_cons.1 h).1 g hg)

theorem total_put (h : fs.Sorted) :
    (fs.put symbol e).total w = fs.total w + (e - fs.exponent symbol) * w symbol := by
  induction fs with
  | nil => simp [put]
  | cons f fs ih =>
      unfold put
      by_cases hlt : symbol < f.1
      · rw [if_pos hlt, h.exponent_of_lt hlt, total_cons]
        ring
      · rw [if_neg hlt]
        by_cases heq : symbol = f.1
        · rw [if_pos heq, exponent_cons, if_pos heq, total_cons, total_cons, heq]
          ring
        · rw [if_neg heq, exponent_cons, if_neg heq, total_cons, total_cons, ih h.tail]
          ring

theorem drop_cons (f : String × Int) (fs : Factors) (symbol : String) :
    drop symbol (f :: fs) = if f.1 = symbol then drop symbol fs else f :: drop symbol fs := by
  by_cases heq : f.1 = symbol <;> simp [drop, heq]

theorem total_drop (h : fs.Sorted) :
    (fs.drop symbol).total w = fs.total w - fs.exponent symbol * w symbol := by
  induction fs with
  | nil => simp [drop]
  | cons f fs ih =>
      rw [drop_cons, exponent_cons]
      by_cases heq : f.1 = symbol
      · subst heq
        rw [if_pos rfl, if_pos rfl, ih h.tail, h.exponent_head, total_cons]
        ring
      · rw [if_neg heq, if_neg (Ne.symm heq), total_cons, total_cons, ih h.tail]
        ring

/-- The exponent of a symbol is the sum that weighs nothing else. -/
theorem exponent_eq_total (h : fs.Sorted) :
    fs.exponent symbol = fs.total fun s => if symbol = s then 1 else 0 := by
  induction fs with
  | nil => rfl
  | cons f fs ih =>
      rw [exponent_cons, total_cons, ← ih h.tail]
      by_cases heq : symbol = f.1
      · subst heq
        rw [if_pos rfl, if_pos rfl, h.exponent_head]
        ring
      · rw [if_neg heq, if_neg heq]
        ring

theorem total_mapExponents (n : Int) :
    (fs.mapExponents fun e => e * n).total w = fs.total w * n := by
  induction fs with
  | nil => simp [mapExponents]
  | cons f fs ih =>
      have hcons : mapExponents (fun e => e * n) (f :: fs) =
          (f.1, f.2 * n) :: mapExponents (fun e => e * n) fs := rfl
      rw [hcons, total_cons, total_cons, ih]
      ring

end Factors

namespace UnitProduct

variable {p q r : UnitProduct} {symbol : String} {e : Int} {w : String → Int}

/-- The sum of the exponents, each times the weight of its symbol. -/
def total (w : String → Int) (p : UnitProduct) : Int := p.factors.total w

@[simp] theorem total_one (w : String → Int) : one.total w = 0 := rfl

@[simp] theorem total_unit (w : String → Int) (symbol : String) :
    (unit symbol).total w = w symbol := by
  simp [unit, put, total, one, Factors.put]

/-- The exponent of a symbol is the sum that weighs nothing else. -/
theorem get_eq_total (p : UnitProduct) (symbol : String) :
    p.get symbol = p.total fun s => if symbol = s then 1 else 0 :=
  Factors.exponent_eq_total p.sorted

@[simp] theorem get_one (symbol : String) : one.get symbol = 0 := rfl

theorem get_unit (s symbol : String) :
    (unit s).get symbol = if symbol = s then 1 else 0 := by
  rw [get_eq_total, total_unit]

theorem total_set (p : UnitProduct) (symbol : String) (e : Int) :
    (p.set symbol e).total w = p.total w + (e - p.get symbol) * w symbol := by
  unfold set
  by_cases he : e = 0
  · rw [if_pos he]
    change (p.factors.drop symbol).total w =
      p.factors.total w + (e - p.factors.exponent symbol) * w symbol
    rw [Factors.total_drop p.sorted, he]
    ring
  · rw [if_neg he]
    exact Factors.total_put p.sorted

theorem total_mapExponents? {n : Int} (h : (p.mapExponents? fun e => e * n) = some r) :
    r.total w = p.total w * n := by
  unfold mapExponents? at h
  split at h
  · cases h
    exact Factors.total_mapExponents n
  · cases h

theorem total_pow? {n : Int} (h : p.pow? n = some r) : r.total w = p.total w * n := by
  unfold pow? at h
  by_cases hn : n = 0
  · rw [if_pos hn] at h
    cases h
    rw [hn]
    simp
  · rw [if_neg hn] at h
    exact total_mapExponents? h

theorem total_reciprocal? (h : p.reciprocal? = some r) : r.total w = -p.total w := by
  have hneg : (fun e : Int => -e) = fun e => e * -1 := by
    funext e
    ring
  unfold reciprocal? at h
  rw [hneg] at h
  rw [total_mapExponents? h]
  ring

/-- Multiplying factors in, one after the other, adds up their exponents. -/
theorem total_foldlM {fs : Factors}
    (h : fs.foldlM (fun r f => (exponent? (f.2 + r.get f.1)).map (r.set f.1)) p = some r) :
    r.total w = p.total w + fs.total w := by
  induction fs generalizing p with
  | nil =>
      cases h
      simp
  | cons f fs ih =>
      rw [List.foldlM_cons] at h
      obtain ⟨next, hnext, hrest⟩ := Option.bind_eq_some_iff.1 h
      obtain ⟨e, he, rfl⟩ := Option.map_eq_some_iff.1 hnext
      have hexact : e = f.2 + p.get f.1 := by
        unfold exponent? at he
        split at he
        · exact (Option.some.inj he).symm
        · cases he
      rw [ih hrest, total_set, hexact, Factors.total_cons]
      ring

theorem total_mul? (h : p.mul? q = some r) : r.total w = p.total w + q.total w :=
  total_foldlM h

theorem total_div? (h : p.div? q = some r) : r.total w = p.total w - q.total w := by
  obtain ⟨inverse, hinverse, hmul⟩ := Option.bind_eq_some_iff.1 h
  rw [total_mul? hmul, total_reciprocal? hinverse]
  ring

theorem get_mul? (h : p.mul? q = some r) (symbol : String) :
    r.get symbol = p.get symbol + q.get symbol := by
  simp only [get_eq_total]
  exact total_mul? h

theorem get_div? (h : p.div? q = some r) (symbol : String) :
    r.get symbol = p.get symbol - q.get symbol := by
  simp only [get_eq_total]
  exact total_div? h

theorem get_reciprocal? (h : p.reciprocal? = some r) (symbol : String) :
    r.get symbol = -p.get symbol := by
  simp only [get_eq_total]
  exact total_reciprocal? h

theorem get_pow? {n : Int} (h : p.pow? n = some r) (symbol : String) :
    r.get symbol = p.get symbol * n := by
  simp only [get_eq_total]
  exact total_pow? h

/-! ## The symbols of a product -/

/-- Every symbol that is written down has the property. -/
def Over (S : String → Prop) (p : UnitProduct) : Prop := ∀ f ∈ p.factors, S f.1

instance (S : String → Prop) [DecidablePred S] (p : UnitProduct) : Decidable (p.Over S) :=
  inferInstanceAs (Decidable (∀ f ∈ p.factors, S f.1))

variable {S : String → Prop}

theorem eq_one_of_isOne (h : p.isOne) : p = one := by
  obtain ⟨fs, hsorted⟩ := p
  obtain rfl : fs = [] := List.isEmpty_iff.1 h
  rfl

theorem over_one : one.Over S := fun f hf => by cases hf

theorem over_unit (h : S symbol) : (unit symbol).Over S := by
  intro f hf
  have hf' : f = (symbol, 1) := by simpa [unit, put, one, Factors.put] using hf
  exact hf' ▸ h

theorem Over.mono {S' : String → Prop} (hp : p.Over S) (h : ∀ s, S s → S' s) : p.Over S' :=
  fun f hf => h _ (hp f hf)

theorem Over.put (hp : p.Over S) (hs : S symbol) (e : Int) : (p.put symbol e).Over S := by
  intro f hf
  rcases Factors.mem_put hf with rfl | hf
  · exact hs
  · exact hp f hf

theorem Over.set (hp : p.Over S) (hs : S symbol) (e : Int) : (p.set symbol e).Over S := by
  unfold UnitProduct.set
  split
  · exact fun f hf => hp f (List.mem_filter.1 hf).1
  · exact hp.put hs e

theorem Over.mapExponents? (hp : p.Over S) {f : Int → Int} (h : p.mapExponents? f = some r) :
    r.Over S := by
  unfold UnitProduct.mapExponents? at h
  split at h
  · cases h
    intro g hg
    obtain ⟨g', hg', rfl⟩ := List.mem_map.1 hg
    exact hp g' hg'
  · cases h

theorem Over.pow? (hp : p.Over S) {n : Int} (h : p.pow? n = some r) : r.Over S := by
  unfold UnitProduct.pow? at h
  split at h
  · cases h
    exact over_one
  · exact hp.mapExponents? h

theorem Over.reciprocal? (hp : p.Over S) (h : p.reciprocal? = some r) : r.Over S :=
  hp.mapExponents? h

/-- Working in factors one after the other keeps a property of the symbols if each step does. -/
theorem Over.foldlM {step : UnitProduct → String × Int → Option UnitProduct}
    (hstep : ∀ {p f r}, p.Over S → S f.1 → step p f = some r → r.Over S) (hp : p.Over S)
    {fs : Factors} (hfs : ∀ f ∈ fs, S f.1) (h : fs.foldlM step p = some r) : r.Over S := by
  induction fs generalizing p with
  | nil =>
      cases h
      exact hp
  | cons f fs ih =>
      rw [List.foldlM_cons] at h
      obtain ⟨next, hnext, hrest⟩ := Option.bind_eq_some_iff.1 h
      have hover := hstep hp (hfs f List.mem_cons_self) hnext
      exact ih hover (fun g hg => hfs g (List.mem_cons_of_mem _ hg)) hrest

theorem Over.mul? (hp : p.Over S) (hq : q.Over S) (h : p.mul? q = some r) : r.Over S := by
  refine hp.foldlM (fun hp hf hstep => ?_) hq h
  obtain ⟨e, -, rfl⟩ := Option.map_eq_some_iff.1 hstep
  exact hp.set hf e

theorem Over.div? (hp : p.Over S) (hq : q.Over S) (h : p.div? q = some r) : r.Over S := by
  obtain ⟨inverse, hinverse, hmul⟩ := Option.bind_eq_some_iff.1 h
  exact hp.mul? (hq.reciprocal? hinverse) hmul

theorem Over.scale? (hp : p.Over S) {power : Float} (h : p.scale? power = some r) :
    r.Over S := by
  refine over_one.foldlM (fun hp hf hstep => ?_) hp h
  dsimp only at hstep
  split at hstep
  · cases hstep
    exact hp.put hf 0
  · obtain ⟨e, -, rfl⟩ := Option.map_eq_some_iff.1 hstep
    exact hp.set hf e

end UnitProduct

end Worksheet
