import Worksheet.Proofs.UnitProduct.Group
import Worksheet.Proofs.UnitTable.Integrity
/-!
# Dimensions that a table derives

They are products without exponents of zero or out of range, so that they are equal if all exponents
are. A product of base units is its own dimension.
-/

namespace Worksheet

namespace UnitTable

variable {t : UnitTable} {units dimension : UnitProduct} {scale : Float}

/-- Takes one factor into the dimension and the scale of a product. -/
def measureStep (t : UnitTable) (done : UnitProduct × Float) (f : String × Int) :
    Option (UnitProduct × Float) := do
  let entry ← t.lookup f.1
  let dimension ← done.1.mul? (← entry.dimension.pow? f.2)
  some (dimension, done.2 * Number.power entry.scale f.2)

theorem measure?_eq (t : UnitTable) (units : UnitProduct) :
    t.measure? units = units.factors.foldlM t.measureStep (.one, 1) := rfl

theorem measureStep_mul {done next : UnitProduct × Float} {f : String × Int}
    (h : t.measureStep done f = some next) : ∃ power, done.1.mul? power = some next.1 := by
  obtain ⟨entry, -, h⟩ := Option.bind_eq_some_iff.1 h
  obtain ⟨power, -, h⟩ := Option.bind_eq_some_iff.1 h
  obtain ⟨dimension, hdimension, h⟩ := Option.bind_eq_some_iff.1 h
  cases h
  exact ⟨power, hdimension⟩

theorem foldlM_normal {fs : Factors} {done next : UnitProduct × Float} (hdone : done.1.Normal)
    (h : fs.foldlM t.measureStep done = some next) : next.1.Normal := by
  induction fs generalizing done with
  | nil =>
      cases h
      exact hdone
  | cons f fs ih =>
      rw [List.foldlM_cons] at h
      obtain ⟨middle, hstep, hrest⟩ := Option.bind_eq_some_iff.1 h
      obtain ⟨power, hmul⟩ := measureStep_mul hstep
      exact ih ((UnitProduct.computes_mul hdone power).normal _ hmul) hrest

theorem measure?_normal (h : t.measure? units = some (dimension, scale)) : dimension.Normal := by
  rw [measure?_eq] at h
  exact foldlM_normal UnitProduct.normal_one h

theorem build_normal {definitions : List UnitDefinition} (h : build definitions = .ok t) :
    t.All fun entry => entry.dimension.Normal := by
  have hpasses : PassesOn fun entry => entry.dimension.Normal := fun p _ base hbase => hbase
  refine build_induction (fun e he => absurd he List.not_mem_nil)
    (fun definition _ d hd => ?_) (fun definition _ d hd => ?_) h
  · unfold Draft.addBase
    split
    · exact Draft.add_all hpasses hd (UnitProduct.normal_unit definition.name)
    · exact hd
  · unfold Draft.addDerived
    split
    · exact hd
    · split
      · exact hd
      · split
        · rename_i base hbase
          exact Draft.add_all hpasses hd (measure?_normal (quantity?_eq_some hbase).1)
        · exact hd

/-- A unit alone has the dimension and the scale of the table. -/
theorem measure?_unit {symbol : String} {entry : UnitEntry} (hentry : t.lookup symbol = some entry)
    (hnormal : entry.dimension.Normal) :
    t.measure? (.unit symbol) = some (entry.dimension, 1 * Number.power entry.scale 1) := by
  have hstep : t.measureStep (.one, 1) (symbol, 1) =
      some (entry.dimension, 1 * Number.power entry.scale 1) := by
    simp [measureStep, hentry, UnitProduct.pow?_one hnormal, UnitProduct.one_mul? hnormal]
  have hfactors : (UnitProduct.unit symbol).factors = [(symbol, 1)] := rfl
  rw [measure?_eq, hfactors, List.foldlM_cons, hstep]
  rfl

/-- The unit is in the table and measures itself. -/
def MeasuresItself (t : UnitTable) (symbol : String) : Prop :=
  ∃ entry, t.lookup symbol = some entry ∧ entry.dimension = .unit symbol

theorem IsBase.measuresItself {bases : String → Prop} {symbol : String} (ht : t.Integrity bases)
    (h : t.IsBase bases symbol) : t.MeasuresItself symbol := by
  obtain ⟨-, entry, hentry, hdimension⟩ := h
  exact ⟨entry, ht.lookup_of_entry hentry, hdimension⟩

/-- A factor with a new base unit can be taken in. -/
theorem measureStep_base {done : UnitProduct × Float} {f : String × Int}
    (hbase : t.MeasuresItself f.1) (he : fitsExponent f.2) (hdone : done.1.Fits)
    (hnew : done.1.get f.1 = 0) :
    ∃ next, t.measureStep done f = some next ∧ next.1.Fits ∧
      ∀ s, s ≠ f.1 → next.1.get s = done.1.get s := by
  obtain ⟨entry, hentry, hdimension⟩ := hbase
  obtain ⟨power, hpower⟩ := UnitProduct.pow?_of_fits (p := .unit f.1) (n := f.2) fun s => by
    rw [UnitProduct.get_unit]
    split
    · rwa [one_mul]
    · rw [zero_mul]
      decide
  have hget : ∀ s, power.get s = if s = f.1 then f.2 else 0 := by
    intro s
    rw [UnitProduct.get_pow? hpower, UnitProduct.get_unit]
    split <;> simp
  obtain ⟨product, hproduct⟩ := UnitProduct.mul?_of_fits (p := done.1) (q := power) fun s => by
    rw [hget]
    by_cases hs : s = f.1
    · rw [if_pos hs, hs, hnew, zero_add]
      exact he
    · rw [if_neg hs, add_zero]
      exact hdone.get s
  refine ⟨(product, done.2 * Number.power entry.scale f.2), ?_, hdone.mul? hproduct, fun s hs => ?_⟩
  · simp only [measureStep, hentry, hdimension, hpower, hproduct, Option.bind_eq_bind,
      Option.bind_some]
  · rw [UnitProduct.get_mul? hproduct, hget, if_neg hs, add_zero]

theorem foldlM_bases {fs : Factors} {done : UnitProduct × Float} (hsorted : fs.Sorted)
    (hfs : ∀ f ∈ fs, t.MeasuresItself f.1 ∧ fitsExponent f.2 ∧ done.1.get f.1 = 0)
    (hdone : done.1.Fits) : ∃ next, fs.foldlM t.measureStep done = some next := by
  induction fs generalizing done with
  | nil => exact ⟨done, rfl⟩
  | cons f fs ih =>
      obtain ⟨hbase, he, hnew⟩ := hfs f List.mem_cons_self
      obtain ⟨middle, hstep, hfits, hothers⟩ := measureStep_base hbase he hdone hnew
      rw [List.foldlM_cons, hstep]
      refine ih hsorted.tail (fun g hg => ?_) hfits
      obtain ⟨hbase, he, hnew⟩ := hfs g (List.mem_cons_of_mem f hg)
      have hlt := (List.pairwise_cons.1 hsorted).1 g hg
      have hne : g.1 ≠ f.1 := fun heq => String.lt_irrefl _ (heq ▸ hlt)
      exact ⟨hbase, he, (hothers g.1 hne).trans hnew⟩

/-- A product of base units is its own dimension. -/
theorem measure?_bases (hnormal : units.Normal) (hbases : units.Over t.MeasuresItself) :
    ∃ scale, t.measure? units = some (units, scale) := by
  have hfold : ∃ next, units.factors.foldlM t.measureStep (.one, 1) = some next :=
    foldlM_bases units.sorted (fun f hf => ⟨hbases f hf, hnormal.fits f hf, rfl⟩)
      UnitProduct.normal_one.fits
  obtain ⟨⟨dimension, scale⟩, hmeasure⟩ := hfold
  rw [← measure?_eq] at hmeasure
  have heq : dimension = units := by
    refine (UnitProduct.eq_iff_get (measure?_normal hmeasure) hnormal).2 fun s => ?_
    rw [measure?_get hmeasure, UnitProduct.get_eq_total]
    refine Factors.total_congr fun f hf => ?_
    obtain ⟨entry, hentry, hdimension⟩ := hbases f hf
    rw [dimensionOf_eq hentry, hdimension, UnitProduct.get_unit]
  exact ⟨scale, heq ▸ hmeasure⟩

end UnitTable

end Worksheet
