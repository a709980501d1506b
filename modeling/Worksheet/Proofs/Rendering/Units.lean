import Worksheet.Proofs.UnitTable.Texts
import Worksheet.Rendering
/-!
# Rendered units read back

The three ways to write a product of units, put together from factors, each of which says its own
exponent.
-/

namespace Worksheet.Rendering

open UnitTable Worksheet.Expr Factors

variable {r : Rendering} {fs gs : Factors} {p : UnitProduct} {symbol : String}

/-- A symbol is written so that units of the table are read back as the symbol. -/
def ReadsBack (r : Rendering) (symbol : String) : Prop :=
  r.table.Writes (symbolText (r.table.displaySymbol symbol)).toList symbol

theorem toList_factor (r : Rendering) (symbol : String) (e : Int) :
    (r.factor symbol e).toList =
      (symbolText (r.table.displaySymbol symbol)).toList ++ raised e := by
  unfold factor raised
  dsimp only
  split_ifs
  · rw [List.append_nil]
  · simp [Scan.exponentText]

theorem factorText_factor (h : r.ReadsBack symbol) {e : Int} (he : IsExponent e) :
    FactorText (r.factor symbol e).toList (r.table.Says (amount [(symbol, e)])) := by
  rw [toList_factor]
  exact .unit h he

/-! ## Chains of factors -/

/-- Pieces that each add a factor add up. -/
theorem tailText_flatMap {t : UnitTable} {piece : String × Int → List Char}
    {P : String × Int → Prop} (hfs : ∀ f ∈ fs, P f) (hfitting : Fitting (gs ++ fs))
    (hstep : ∀ gs f, P f → Fitting (gs ++ [f]) →
      TailText (piece f) (t.Says (amount gs)) (t.Says (amount (gs ++ [f])))) :
    TailText (fs.flatMap piece) (t.Says (amount gs)) (t.Says (amount (gs ++ fs))) := by
  induction fs generalizing gs with
  | nil =>
    rw [List.append_nil]
    exact .nil
  | cons f fs ih =>
    obtain ⟨hf, hfs⟩ := List.forall_mem_cons.1 hfs
    have happend : gs ++ f :: fs = gs ++ [f] ++ fs := by simp
    rw [happend] at hfitting ⊢
    exact (hstep gs f hf hfitting.of_append_left).append (ih hfs hfitting)

theorem tailText_times {t : UnitTable} {text : List Char} {f : String × Int}
    (h : FactorText text (t.Says (amount [f]))) (hfitting : Fitting (gs ++ [f])) :
    TailText (dot.toList ++ text) (t.Says (amount gs)) (t.Says (amount (gs ++ [f]))) := by
  refine .times h fun left right hleft hright => ?_
  refine (hleft.mul hright fun s => ?_).congr fun s => (amount_append gs [f] s).symm
  rw [← amount_append]
  exact hfitting.fits s

theorem amount_append_sub (gs fs : Factors) (s : String) :
    amount gs s - amount fs.opposite s = amount (gs ++ fs) s := by
  rw [amount_opposite, amount_append, sub_neg_eq_add]

theorem fits_neg_opposite (h : Fitting fs) (s : String) : fitsExponent (-amount fs.opposite s) := by
  rw [amount_opposite, neg_neg]
  exact h.fits s

/-- A division by factors multiplies by the opposite ones. -/
theorem tailText_over {t : UnitTable} {text : List Char}
    (h : FactorText text (t.Says (amount fs.opposite))) (hfitting : Fitting (gs ++ fs)) :
    TailText ('/' :: text) (t.Says (amount gs)) (t.Says (amount (gs ++ fs))) := by
  refine .over h fun left right hleft hright => ?_
  refine (hleft.div hright (fits_neg_opposite hfitting.of_append_right) fun s => ?_).congr
    (amount_append_sub gs fs)
  rw [amount_append_sub]
  exact hfitting.fits s

theorem tailText_oneOver {t : UnitTable} {text : List Char}
    (h : FactorText text (t.Says (amount fs.opposite))) (hfitting : Fitting fs) :
    TailText ('/' :: text) t.SaysOne (t.Says (amount fs)) := by
  refine .over h fun left right hleft hright => ?_
  refine (hleft.div hright (fits_neg_opposite hfitting)).congr fun s => ?_
  rw [amount_opposite, neg_neg]

/-! ## Products -/

theorem toList_intercalate (separator text : String) (texts : List String) :
    (separator.intercalate (text :: texts)).toList =
      text.toList ++ texts.flatMap fun next => separator.toList ++ next.toList := by
  induction texts generalizing text with
  | nil => simp
  | cons next texts ih =>
    rw [String.intercalate_cons_cons, String.toList_append, String.toList_append, ih,
      List.flatMap_cons]
    simp

theorem productText_intercalate (hne : fs ≠ []) (hfs : ∀ f ∈ fs, r.ReadsBack f.1)
    (hfitting : Fitting fs) :
    ProductText (dot.intercalate (fs.map fun f => r.factor f.1 f.2)).toList
      (r.table.Says (amount fs)) := by
  obtain ⟨f, fs, rfl⟩ := List.exists_cons_of_ne_nil hne
  obtain ⟨hf, hothers⟩ := List.forall_mem_cons.1 hfs
  have hfirst := factorText_factor hf (hfitting.2 f List.mem_cons_self)
  rw [List.map_cons, toList_intercalate, List.flatMap_map]
  refine hfirst.product.append (tailText_flatMap hothers hfitting fun gs f hf hfitting => ?_)
  have hexponent := hfitting.2 f (List.mem_append_right gs List.mem_cons_self)
  exact tailText_times (factorText_factor hf hexponent) hfitting

/-- What stands above the line: the factors written so far, or a one if there are none. -/
inductive Above (t : UnitTable) : Factors → (Expr → Prop) → Prop where
  | one : Above t [] t.SaysOne
  | factors {gs : Factors} : Above t gs (t.Says (amount gs))

theorem Above.eq_says {t : UnitTable} {Q : Expr → Prop} (h : Above t gs Q) (hne : gs ≠ []) :
    Q = t.Says (amount gs) := by
  cases h with
  | one => exact absurd rfl hne
  | factors => rfl

theorem Above.over {t : UnitTable} {Q : Expr → Prop} {text : List Char} (habove : Above t gs Q)
    (h : FactorText text (t.Says (amount fs.opposite))) (hfitting : Fitting (gs ++ fs)) :
    TailText ('/' :: text) Q (t.Says (amount (gs ++ fs))) := by
  cases habove with
  | one => exact tailText_oneOver h hfitting
  | factors => exact tailText_over h hfitting

/-- The denominators one after the other. -/
theorem Above.denominators {Q : Expr → Prop} (habove : Above r.table gs Q) (hne : fs ≠ [])
    (hfs : ∀ f ∈ fs, r.ReadsBack f.1) (hfitting : Fitting (gs ++ fs)) :
    TailText (fs.flatMap fun f => '/' :: (r.factor f.1 (-f.2)).toList) Q
      (r.table.Says (amount (gs ++ fs))) := by
  have hfactor : ∀ f : String × Int, r.ReadsBack f.1 → IsExponent f.2 →
      FactorText (r.factor f.1 (-f.2)).toList (r.table.Says (amount (opposite [f]))) :=
    fun f hf he => factorText_factor hf he.neg
  obtain ⟨f, fs, rfl⟩ := List.exists_cons_of_ne_nil hne
  obtain ⟨hf, hothers⟩ := List.forall_mem_cons.1 hfs
  have happend : gs ++ f :: fs = gs ++ [f] ++ fs := by simp
  rw [happend] at hfitting ⊢
  have hfirst := hfitting.of_append_left
  rw [List.flatMap_cons]
  refine (habove.over (hfactor f hf (hfirst.2 f (by simp))) hfirst).append
    (tailText_flatMap hothers hfitting fun gs f hf hfitting => ?_)
  exact tailText_over (hfactor f hf (hfitting.2 f (by simp))) hfitting

/-- The denominators in parentheses. -/
theorem Above.group {Q : Expr → Prop} (habove : Above r.table gs Q) (hne : fs ≠ [])
    (hfs : ∀ f ∈ fs, r.ReadsBack f.1) (hfitting : Fitting (gs ++ fs)) :
    TailText ("/(".toList ++
        (dot.intercalate (fs.map fun f => r.factor f.1 (-f.2))).toList ++ ")".toList) Q
      (r.table.Says (amount (gs ++ fs))) := by
  have hmap : (fs.map fun f => r.factor f.1 (-f.2)) =
      fs.opposite.map fun f => r.factor f.1 f.2 := by
    simp [opposite]
  have hopposite : ∀ f ∈ fs.opposite, r.ReadsBack f.1 := by
    intro f hf
    obtain ⟨g, hg, rfl⟩ := List.mem_map.1 hf
    exact hfs g hg
  have hproduct := productText_intercalate (by simpa [opposite] using hne) hopposite
    hfitting.of_append_right.opposite
  rw [hmap]
  exact habove.over (.group hproduct fun span e he => he.group span) hfitting

/-! ## The three layouts -/

/-- What stands above the line of a product. -/
def numeratorText (r : Rendering) (p : UnitProduct) : String :=
  if (p.numerator.map fun f => r.factor f.1 f.2).isEmpty then "1"
  else dot.intercalate (p.numerator.map fun f => r.factor f.1 f.2)

theorem productText_numerator (hfs : ∀ f ∈ p.numerator, r.ReadsBack f.1)
    (hfitting : Fitting p.numerator) :
    ∃ Q, Above r.table p.numerator Q ∧ ProductText (r.numeratorText p).toList Q := by
  unfold numeratorText
  by_cases hnil : p.numerator = []
  · have hone : (p.numerator.map fun f => r.factor f.1 f.2).isEmpty = true := by
      simpa using hnil
    rw [hone, hnil, if_pos rfl]
    exact ⟨r.table.SaysOne, .one, (FactorText.one r.table).product⟩
  · have hempty : (p.numerator.map fun f => r.factor f.1 f.2).isEmpty = false := by
      simpa using hnil
    rw [hempty]
    exact ⟨_, .factors, productText_intercalate hnil hfs hfitting⟩

theorem numerator_append_denominator (hp : p.Reduced) :
    (p.numerator ++ p.denominator).Perm p.factors := by
  have hdenominator : p.denominator = p.factors.filter fun f => !decide (0 < f.2) := by
    refine List.filter_congr fun f hf => ?_
    have hne := hp f hf
    simp only [← decide_not, not_lt]
    rw [decide_eq_decide]
    omega
  rw [hdenominator]
  exact List.filter_append_perm (fun f => decide (0 < f.2)) p.factors

theorem fitting_factors (h : ∀ f ∈ p.factors, IsExponent f.2) : Fitting p.factors := by
  refine ⟨?_, h⟩
  rw [List.Nodup, List.pairwise_map]
  refine p.sorted.imp fun {f g} hlt heq => ?_
  rw [heq] at hlt
  exact String.lt_irrefl g.1 hlt

/-- A product is written so that it says its own exponents. -/
theorem productText_units (hne : p.factors ≠ []) (hfs : p.Over r.ReadsBack)
    (hexponents : ∀ f ∈ p.factors, IsExponent f.2) :
    ProductText (r.units p).toList (r.table.Says p.get) := by
  have hperm := numerator_append_denominator fun f hf => (hexponents f hf).1
  have hfitting : Fitting (p.numerator ++ p.denominator) :=
    (fitting_factors hexponents).perm hperm.symm
  have hfactors : ∀ f ∈ p.numerator ++ p.denominator, r.ReadsBack f.1 :=
    fun f hf => hfs f (hperm.mem_iff.1 hf)
  have hget : amount (p.numerator ++ p.denominator) = p.get := by
    funext s
    rw [amount_perm hperm, UnitProduct.get_eq_total]
    rfl
  have hnonempty : p.numerator ++ p.denominator ≠ [] := fun hnil => hne (hnil ▸ hperm).nil_eq.symm
  rw [← hget]
  unfold units
  split
  · exact productText_intercalate hnonempty hfactors hfitting
  · obtain ⟨Q, habove, hnumerator⟩ := productText_numerator
      (fun f hf => hfactors f (List.mem_append_left _ hf)) hfitting.of_append_left
    unfold numeratorText at hnumerator
    have hdenominator : ∀ f ∈ p.denominator, r.ReadsBack f.1 :=
      fun f hf => hfactors f (List.mem_append_right _ hf)
    dsimp only
    split
    · rename_i hgrouped
      have hdenominators : p.denominator ≠ [] := by
        intro hnil
        rw [hnil] at hgrouped
        simp at hgrouped
      have hwhole := hnumerator.append (habove.group hdenominators hdenominator hfitting)
      simpa only [String.toList_append, List.append_assoc] using hwhole
    · by_cases hnil : p.denominator = []
      · have habsent : p.numerator ≠ [] := fun h => hnonempty (by rw [h, hnil, List.append_nil])
        have hsays := habove.eq_says habsent
        rw [hnil, List.append_nil, ← hsays]
        simpa using hnumerator
      · have hwhole := hnumerator.append (habove.denominators hnil hdenominator hfitting)
        have hjoin : (String.join ((p.denominator.map fun f => r.factor f.1 (-f.2)).map
            fun d => "/" ++ d)).toList =
              p.denominator.flatMap fun f => '/' :: (r.factor f.1 (-f.2)).toList := by
          rw [String.toList_join, List.map_map, List.flatMap_map]
          simp
        rw [String.toList_append, hjoin]
        exact hwhole

/-- A product without factors is written as a one, or not at all. -/
theorem units_one (r : Rendering) : r.units .one = "1" ∨ r.units .one = "" := by
  unfold units
  split
  · exact .inr rfl
  · refine .inl ?_
    dsimp only
    have hnone : UnitProduct.one.denominator = [] := rfl
    rw [hnone, if_neg fun h => absurd h.2 (by simp)]
    rfl

/-- What is written for a product reads as the product, in either spelling. -/
theorem parse_units (hfs : p.Over r.ReadsBack) (hexponents : ∀ f ∈ p.factors, IsExponent f.2) :
    r.table.parse (r.units p) = .ok p ∧
      r.table.parse (String.ofList (UnitText.plain (r.units p).toList)) = .ok p := by
  by_cases hne : p.factors = []
  · obtain rfl := UnitProduct.eq_one_of_isOne (List.isEmpty_iff.2 hne)
    rcases r.units_one with hone | hempty
    · obtain ⟨e, he, hparse, hplain⟩ := (FactorText.one r.table).product.parse_units r.table
      rw [hone]
      exact ⟨hparse.trans he.product, hplain.trans he.product⟩
    · rw [hempty]
      exact ⟨rfl, rfl⟩
  · obtain ⟨e, he, hparse, hplain⟩ := (productText_units hne hfs hexponents).parse_units r.table
    obtain ⟨q, hq, hreduced, hget⟩ := he.product
    rw [UnitProduct.ext_get hreduced (fun f hf => (hexponents f hf).1) hget] at hq
    rw [String.ofList_toList] at hparse
    exact ⟨hparse.trans hq, hplain.trans hq⟩

end Worksheet.Rendering
