import Worksheet.Proofs.Except
import Worksheet.Proofs.UnitProduct.Reduced
import Worksheet.Proofs.UnitTable.Faults
/-!
# The symbols of a unit text

A text is read as a product over symbols of the table, in which no exponent is zero or out of
range.
-/

namespace Worksheet

namespace UnitTable

variable {t : UnitTable} {P : UnitProduct → Prop}

/-- The products that hold all units of a table and are closed under what unit texts can say. -/
structure ClosedUnder (t : UnitTable) (P : UnitProduct → Prop) : Prop where
  one : P .one
  unit : ∀ name entry, t.lookup name = some entry → P (.unit entry.symbol)
  pow : ∀ p n r, P p → p.pow? n = some r → P r
  reciprocal : ∀ p r, P p → p.reciprocal? = some r → P r
  mul : ∀ p q r, P p → P q → p.mul? q = some r → P r

theorem ClosedUnder.div (h : t.ClosedUnder P) {p q r : UnitProduct} (hp : P p) (hq : P q)
    (hdiv : p.div? q = some r) : P r := by
  obtain ⟨inverse, hinverse, hmul⟩ := Option.bind_eq_some_iff.1 hdiv
  exact h.mul _ _ _ hp (h.reciprocal _ _ hq hinverse) hmul

/-- Whatever the errors. -/
abbrev Gives (P : UnitProduct → Prop) (r : Except SourceError UnitProduct) : Prop :=
  Meets (fun _ => True) P r

theorem ClosedUnder.single (h : t.ClosedUnder P) (span : Span) (name : String) :
    Gives P (t.single span name) := by
  unfold UnitTable.single
  split
  · rename_i entry hentry
    exact .ok (h.unit name entry hentry)
  · exact .error trivial

theorem gives_orOverflow {p? : Option UnitProduct} (span : Span) (h : ∀ p, p? = some p → P p) :
    Gives P (orOverflow span p?) := by
  cases p? with
  | some p => exact .ok (h p rfl)
  | none => exact .error trivial

theorem ClosedUnder.product (h : t.ClosedUnder P) (e : Expr) : Gives P (t.product e) := by
  fun_induction t.product e with
  | case1 | case3 => exact .ok h.one
  | case2 | case7 | case8 | case9 | case10 | case14 | case16 | case17 => exact .error trivial
  | case4 | case5 => exact h.single _ _
  | case6 span inner ih => exact ih
  | case11 span left right ih =>
    have hright : Meets (fun _ => True) (fun _ => True) right.integer := by
      cases right.integer with
      | ok n => exact .ok trivial
      | error e => exact .error trivial
    exact hright.bind fun n _ => ih.bind fun p hp => gives_orOverflow span fun r => h.pow p n r hp
  | case12 span left right ihleft ihright =>
    exact ihleft.bind fun p hp => ihright.bind fun q hq =>
      gives_orOverflow span fun r => h.mul p q r hp hq
  | case13 span left right _ ih =>
    exact ih.bind fun p hp => gives_orOverflow span fun r => h.reciprocal p r hp
  | case15 span left right _ _ ihleft ihright =>
    exact ihleft.bind fun p hp => ihright.bind fun q hq =>
      gives_orOverflow span fun r => h.div hp hq

theorem ClosedUnder.parse (h : t.ClosedUnder P) {text : String} {units : UnitProduct}
    (hparse : t.parse text = .ok units) : P units := by
  unfold UnitTable.parse at hparse
  obtain ⟨read, -, hread⟩ := bind_eq_ok.1 hparse
  cases read with
  | none =>
    cases hread
    exact h.one
  | some e => exact (h.product e).result hread

theorem closed_over {S : String → Prop} (h : ∀ name entry, t.lookup name = some entry →
    S entry.symbol) : t.ClosedUnder (UnitProduct.Over S) where
  one := UnitProduct.over_one
  unit name entry hentry := UnitProduct.over_unit (h name entry hentry)
  pow _ _ _ hp hr := hp.pow? hr
  reciprocal _ _ hp hr := hp.reciprocal? hr
  mul _ _ _ hp hq hr := hp.mul? hq hr

theorem closed_reduced : t.ClosedUnder UnitProduct.Reduced where
  one := fun f hf => by cases hf
  unit _ entry _ := UnitProduct.reduced_unit entry.symbol
  pow p n r hp hr := by
    by_cases hn : n = 0
    · subst hn
      cases hr
      exact fun f hf => by cases hf
    · exact hp.pow? hn hr
  reciprocal _ _ hp hr := hp.reciprocal? hr
  mul _ _ _ hp _ hr := hp.mul? hr

theorem closed_fits : t.ClosedUnder UnitProduct.Fits where
  one := fun f hf => by cases hf
  unit _ entry _ := UnitProduct.fits_unit entry.symbol
  pow _ _ _ _ hr := UnitProduct.fits_pow? hr
  reciprocal _ _ _ hr := UnitProduct.fits_mapExponents? hr
  mul _ _ _ hp _ hr := hp.mul? hr

end UnitTable

end Worksheet
