import Worksheet.Proofs.UnitProduct.Exponents
import Worksheet.UnitTable.Basic
/-!
# Dimensions of unit products

The dimension of a product is the sum of what its factors measure, exactly.
-/

namespace Worksheet

namespace UnitTable

variable {t : UnitTable}

/-- What a unit measures; one that is not known measures nothing. -/
def dimensionOf (t : UnitTable) (symbol : String) : UnitProduct :=
  ((t.lookup symbol).map UnitEntry.dimension).getD .one

theorem dimensionOf_eq {symbol : String} {entry : UnitEntry} (h : t.lookup symbol = some entry) :
    t.dimensionOf symbol = entry.dimension := by
  unfold dimensionOf
  rw [h]
  rfl

/-- How a product comes to its dimension, from the factors that are done on. -/
theorem measure_foldlM {fs : Factors} {d dimension : UnitProduct} {x scale : Float}
    (h : fs.foldlM (fun (dimension, scale) (symbol, e) => do
        let entry ← t.lookup symbol
        let dimension ← dimension.mul? (← entry.dimension.pow? e)
        some (dimension, scale * Number.power entry.scale e)) (d, x) = some (dimension, scale)) :
    (∀ f ∈ fs, t.isUnit f.1) ∧
    (∀ b, dimension.get b = d.get b + fs.total fun s => (t.dimensionOf s).get b) ∧
    ∀ S, d.Over S → (∀ f ∈ fs, (t.dimensionOf f.1).Over S) → dimension.Over S := by
  induction fs generalizing d x with
  | nil =>
      cases h
      exact ⟨fun f hf => absurd hf List.not_mem_nil, fun b => by simp, fun S hd _ => hd⟩
  | cons f fs ih =>
      rw [List.foldlM_cons] at h
      obtain ⟨next, hnext, hrest⟩ := Option.bind_eq_some_iff.1 h
      obtain ⟨entry, hentry, hnext⟩ := Option.bind_eq_some_iff.1 hnext
      obtain ⟨factor, hfactor, hnext⟩ := Option.bind_eq_some_iff.1 hnext
      obtain ⟨product, hproduct, hnext⟩ := Option.bind_eq_some_iff.1 hnext
      cases hnext
      obtain ⟨hknown, hget, hover⟩ := ih hrest
      have hdimension := dimensionOf_eq hentry
      refine ⟨?_, ?_, ?_⟩
      · intro g hg
        rcases List.mem_cons.1 hg with rfl | hg
        · simp [isUnit, hentry]
        · exact hknown g hg
      · intro b
        rw [hget b, UnitProduct.get_mul? hproduct, UnitProduct.get_pow? hfactor,
          Factors.total_cons, hdimension]
        ring
      · intro S hd hfs
        have hentryOver : entry.dimension.Over S := hdimension ▸ hfs f List.mem_cons_self
        exact hover S (hd.mul? (hentryOver.pow? hfactor) hproduct)
          fun g hg => hfs g (List.mem_cons_of_mem _ hg)

variable {units dimension : UnitProduct} {scale : Float}

theorem measure?_isUnit (h : t.measure? units = some (dimension, scale)) :
    units.Over fun s => t.isUnit s :=
  (measure_foldlM h).1

/-- No exponent wraps or saturates on the way to a dimension. -/
theorem measure?_get (h : t.measure? units = some (dimension, scale)) (b : String) :
    dimension.get b = units.total fun s => (t.dimensionOf s).get b := by
  rw [(measure_foldlM h).2.1 b, UnitProduct.get_one]
  exact Int.zero_add _

theorem measure?_over {S : String → Prop} (h : t.measure? units = some (dimension, scale))
    (hunits : units.Over fun s => (t.dimensionOf s).Over S) : dimension.Over S :=
  (measure_foldlM h).2.2 S UnitProduct.over_one hunits

end UnitTable

end Worksheet
