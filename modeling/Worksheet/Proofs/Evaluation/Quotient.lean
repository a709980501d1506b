import Worksheet.Proofs.Evaluation.Finite
import Worksheet.Proofs.Number.Exact
import Worksheet.Proofs.UnitProduct.Exponents
/-!
# Quotients

A quotient of quantities counts from zero, so that a divisor in a unit with an offset is moved to
base units first. The check for a zero divisor is made before that. Where zero in the unit is not
zero in base units, quotients that exist are refused, and a divisor of zero is only noticed by what
it leads to.
-/

namespace Worksheet

namespace Number

open Float.Model UnpackedFloat

variable {x y : Float}

/-- A quotient by zero is infinite, or no number. -/
theorem isFinite_div_zero (h : (y == 0) = true) : (x / y).isFinite = false := by
  have hzero : ∃ s, y.toModel.unpack = .zero s := by
    obtain ⟨-, -, rfl | ⟨rfl, -⟩ | ⟨rfl, -⟩⟩ := Float.beq_iff_ne_nan_and_eq.1 h
    · exact ⟨.positive, rfl⟩
    · exact ⟨.positive, rfl⟩
    · exact ⟨.negative, rfl⟩
  obtain ⟨s, hy⟩ := hzero
  change (Float.Model.pack (UnpackedFloat.div Format.binary64 x.toModel.unpack
    y.toModel.unpack)).unpack.isFinite = false
  rw [hy]
  cases x.toModel.unpack with
  | notANumber =>
    simp only [UnpackedFloat.div]
    rfl
  | infinity s' => cases s <;> cases s' <;> rfl
  | zero s' =>
    simp only [UnpackedFloat.div]
    rfl
  | finite s' m e hm =>
    simp only [UnpackedFloat.div]
    cases s <;> cases s' <;> rfl

end Number

namespace Quantity

variable {q r p : Quantity}

/-- The number that a quotient divides by. -/
def divisor (r : Quantity) : Float := if r.offset == 0 then r.magnitude else r.toSi

theorem withoutOffset_magnitude (r : Quantity) : r.withoutOffset.magnitude = r.divisor := by
  unfold withoutOffset divisor
  split <;> rfl

/-- A bare number counts from zero. -/
theorem offset_of_isNumber {t : UnitTable} {x : Float} {units : UnitProduct}
    (h : t.quantity? x units = some r) (hr : r.isNumber = true) : r.offset = 0 := by
  obtain ⟨-, -, hunits, hoffset⟩ := UnitTable.quantity?_eq_some h
  rw [hoffset, ← hunits, UnitProduct.eq_one_of_isOne hr]
  rfl

/-- What a quotient divides by the divisor. A bare number leaves the units of the other side as they
are. -/
def dividend (q r : Quantity) : Float :=
  if r.isNumber then q.magnitude else q.withoutOffset.magnitude

theorem div?_magnitude (hnumber : r.isNumber = true → r.offset = 0) (h : q.div? r = some p) :
    p.magnitude = q.dividend r / r.divisor := by
  unfold div? at h
  unfold dividend
  split at h
  · rename_i hr
    cases h
    have hzero : (r.offset == 0) = true := by
      rw [hnumber hr]
      decide
    rw [if_pos hr, divisor, if_pos hzero]
    rfl
  · rename_i hr
    obtain ⟨units, -, h⟩ := Option.bind_eq_some_iff.1 h
    obtain ⟨dimension, -, h⟩ := Option.bind_eq_some_iff.1 h
    cases h
    rw [if_neg hr, ← withoutOffset_magnitude]

/-- Nothing finite comes of a divisor of zero. -/
theorem not_isFinite_div? (hnumber : r.isNumber = true → r.offset = 0)
    (hzero : (r.divisor == 0) = true) (h : q.div? r = some p) : ¬p.IsFinite := by
  rw [IsFinite, div?_magnitude hnumber h, Number.isFinite_div_zero hzero]
  exact Bool.false_ne_true

end Quantity

namespace Evaluation

open Eval

variable {env : Environment} {span : Span} {q r : Quantity}

/-- What a quotient of scalars comes to, depending on whether the divisor is taken for zero. -/
def quotient (zero : Bool) (span : Span) (q r : Quantity) : Except Error Value :=
  if zero then .error ⟨.divisionByZero, span, none⟩
  else
    match q.div? r with
    | some p => check (.scalar p) span
    | none => .error ⟨.unitExponentOverflow, span, none⟩

/-- Division by zero is reported exactly where the divisor is taken for zero. -/
theorem quotient_divisionByZero (zero : Bool) (span : Span) (q r : Quantity) :
    (∃ e, quotient zero span q r = .error e ∧ e.code = .divisionByZero) ↔ zero = true := by
  constructor
  · rintro ⟨e, he, hcode⟩
    by_contra hzero
    rw [quotient, if_neg hzero] at he
    split at he
    · unfold check at he
      split at he
      · cases he
      · cases he
        cases hcode
    · cases he
      cases hcode
  · intro hzero
    exact ⟨_, if_pos hzero, rfl⟩

/-- A quotient by zero that nobody noticed fails all the same, as one that is not finite or whose
units do not fit. -/
theorem quotient_of_divisor_zero (hnumber : r.isNumber = true → r.offset = 0)
    (hzero : (r.divisor == 0) = true) :
    quotient false span q r = .error ⟨.notFinite, span, none⟩ ∨
      quotient false span q r = .error ⟨.unitExponentOverflow, span, none⟩ := by
  rw [quotient, if_neg Bool.false_ne_true]
  cases hdiv : q.div? r with
  | none => exact .inr rfl
  | some p =>
    refine .inl (if_neg fun hfinite => ?_)
    exact Quantity.not_isFinite_div? hnumber hzero hdiv (hfinite p List.mem_cons_self)

variable {depth : Nat} {locals : List Value} {left right : Expr}

/-- A quotient of scalars is what it comes to where a magnitude of zero is taken for zero. -/
theorem outcome_quotient (hl : outcome env ⟨depth, locals, left⟩ = .ok (.scalar q))
    (hr : outcome env ⟨depth, locals, right⟩ = .ok (.scalar r)) :
    outcome env ⟨depth, locals, .binary span .div left right⟩ =
      quotient (r.magnitude == 0) span q r := by
  have hdivide : (broadcast span (combine env span .div) (.scalar q) (.scalar r)).result.1 =
      (divide span q r >>= fun p => pure (Value.scalar p)).result.1 := rfl
  rw [Computes.operation.outcome_eq, hl, hr, ok_bind, ok_bind, hdivide]
  unfold divide quotient
  split
  · rfl
  · cases q.div? r <;> rfl

/-- Division by zero is reported where the magnitude of the divisor is zero. That is where the
quotient divides by zero if the divisor has no offset, and otherwise exactly if zero in its unit and
zero in base units are the same for it. Where only the number divided by is zero, the quotient fails
in another way. -/
theorem outcome_quotient_divisionByZero {y : Float} {units : UnitProduct}
    (hmade : env.table.quantity? y units = some r)
    (hl : outcome env ⟨depth, locals, left⟩ = .ok (.scalar q))
    (hr : outcome env ⟨depth, locals, right⟩ = .ok (.scalar r)) :
    let result := outcome env ⟨depth, locals, .binary span .div left right⟩
    let reported := ∃ e, result = .error e ∧ e.code = .divisionByZero
    (∀ p, q.div? r = some p → p.magnitude = q.dividend r / r.divisor) ∧
    (reported ↔ (r.magnitude == 0) = true) ∧
    ((r.offset == 0) = true → (reported ↔ (r.divisor == 0) = true)) ∧
    ((reported ↔ (r.divisor == 0) = true) ↔ (r.magnitude == 0) = (r.divisor == 0)) ∧
    ((r.divisor == 0) = true → reported ∨
      result = .error ⟨.notFinite, span, none⟩ ∨
      result = .error ⟨.unitExponentOverflow, span, none⟩) := by
  have hnumber : r.isNumber = true → r.offset = 0 := Quantity.offset_of_isNumber hmade
  intro result reported
  have hresult : result = quotient (r.magnitude == 0) span q r := outcome_quotient hl hr
  have hreported : reported ↔ (r.magnitude == 0) = true := by
    change (∃ e, result = _ ∧ _) ↔ _
    rw [hresult]
    exact quotient_divisionByZero _ span q r
  refine ⟨fun p => Quantity.div?_magnitude hnumber, hreported, fun hoffset => ?_, ?_,
    fun hzero => ?_⟩
  · rw [hreported, Quantity.divisor, if_pos hoffset]
  · rw [hreported, ← Bool.eq_iff_iff]
  · cases hmagnitude : r.magnitude == 0 with
    | true => exact .inl (hreported.2 hmagnitude)
    | false =>
      rw [hresult, hmagnitude]
      exact .inr (quotient_of_divisor_zero hnumber hzero)

def ratio : Expr :=
  .binary ⟨0, 5⟩ .div (.var ⟨0, 1⟩ ⟨"x"⟩ (.parameter 0)) (.var ⟨4, 5⟩ ⟨"y"⟩ (.parameter 1))

/-- So many kelvins. -/
def kelvins (x : Float) : Quantity := ⟨x, .unit "K", .unit "K", 1, 0⟩

/-- So many degrees Celsius. -/
def celsius (x : Float) : Quantity := ⟨x, .unit "degC", .unit "K", 1, 273.15⟩

/-- One kelvin by no kelvin, where no other unit is known. -/
theorem outcome_quotient_kelvin :
    let table : UnitTable := { entries := [("K", ⟨"K", "K", .unit "K", 1, 0⟩)] }
    let env : Environment := { table, registry := {}, settings := {} }
    table.quantity? 0 (.unit "K") = some (kelvins 0) ∧ ((kelvins 0).divisor == 0) = true ∧
      ∃ e, outcome env ⟨0, [.scalar (kelvins 1), .scalar (kelvins 0)], ratio⟩ = .error e ∧
        e.code = .divisionByZero := by
  intro table env
  have hmade : table.quantity? 0 (.unit "K") = some (kelvins 0) := by decide +kernel
  have hoffset : ((kelvins 0).offset == 0) = true := by decide +kernel
  have hzero : ((kelvins 0).divisor == 0) = true := by decide +kernel
  obtain ⟨-, -, hreported, -⟩ := @outcome_quotient_divisionByZero env ⟨0, 5⟩ (kelvins 1) (kelvins 0)
    0 [.scalar (kelvins 1), .scalar (kelvins 0)] (.var ⟨0, 1⟩ ⟨"x"⟩ (.parameter 0))
    (.var ⟨4, 5⟩ ⟨"y"⟩ (.parameter 1)) 0 (.unit "K") hmade rfl rfl
  exact ⟨hmade, hzero, (hreported hoffset).2 hzero⟩

set_option maxRecDepth 100000 in
/-- A kelvin by zero degrees Celsius, of which there are many kelvins, is refused, and one by
absolute zero is not. -/
theorem outcome_quotient_celsius_ne :
    let env : Environment := { table := .standard, registry := {}, settings := {} }
    let result := fun y => outcome env ⟨0, [.scalar (kelvins 1), .scalar (celsius y)], ratio⟩
    UnitTable.standard.quantity? 1 (.unit "K") = some (kelvins 1) ∧
    UnitTable.standard.quantity? 0 (.unit "degC") = some (celsius 0) ∧
    result 0 = .error ⟨.divisionByZero, ⟨0, 5⟩, none⟩ ∧ ((celsius 0).divisor == 0) = false ∧
    UnitTable.standard.quantity? (-273.15) (.unit "degC") = some (celsius (-273.15)) ∧
    result (-273.15) = .error ⟨.notFinite, ⟨0, 5⟩, none⟩ ∧
    ((celsius (-273.15)).divisor == 0) = true := by
  rw [UnitTable.standard_eq_listed]
  decide +kernel

end Evaluation

end Worksheet
