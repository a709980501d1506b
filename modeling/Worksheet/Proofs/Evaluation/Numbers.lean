import Worksheet.Proofs.Evaluation.Invariant
/-!
# Evaluating numbers with units

Numbers that are written with signs and powers of ten, alone or in an array, with units behind them
or not: such an expression gives a value of the shape that it is written in, unless a number becomes
infinite on the way.
-/

namespace Worksheet

/-- Has these units. -/
def Quantity.In (p : UnitProduct) (q : Quantity) : Prop := q.units = p

instance (p : UnitProduct) : DecidablePred (Quantity.In p) :=
  fun q => inferInstanceAs (Decidable (q.units = p))

/-- Has no units and no dimension. -/
def Quantity.Pure (q : Quantity) : Prop := q.units = .one ∧ q.dimension = .one

/-- A scalar, or an array of some length, of quantities with a property. -/
structure Value.Fits (array : Bool) (size : Nat) (P : Quantity → Prop) (v : Value) : Prop where
  isArray : v.isArray = array
  size : v.size = size
  all : v.All P

namespace Value

variable {P P' : Quantity → Prop} {q : Quantity} {v : Value} {array : Bool} {size : Nat}
  {p : UnitProduct} {qs : List Quantity}

theorem fits_scalar (h : P q) : (Value.scalar q).Fits false 1 P := ⟨rfl, rfl, all_scalar.2 h⟩

theorem fits_array (h : ∀ q ∈ qs, P q) : (Value.array qs).Fits true qs.length P :=
  ⟨rfl, rfl, all_array.2 h⟩

theorem Fits.imp (h : v.Fits array size P) (hP : ∀ q, P q → P' q) : v.Fits array size P' :=
  ⟨h.isArray, h.size, fun q hq => hP q (h.all q hq)⟩

theorem Fits.eq_scalar (h : v.Fits false size P) : ∃ q, v = .scalar q ∧ P q := by
  cases v with
  | scalar q => exact ⟨q, rfl, all_scalar.1 h.all⟩
  | array qs => cases h.isArray

theorem ofElements_of_units (hne : qs ≠ []) (h : ∀ q ∈ qs, q.In p) :
    ofElements qs = .ok (.array qs) := by
  obtain ⟨first, rest, rfl⟩ := List.exists_cons_of_ne_nil hne
  obtain ⟨hfirst, hrest⟩ := List.forall_mem_cons.1 h
  have hall : rest.all (fun q => q.units = first.units) = true := by
    rw [List.all_eq_true]
    intro q hq
    exact decide_eq_true ((hrest q hq).trans hfirst.symm)
  rw [ofElements, if_pos hall]

end Value

namespace Evaluation

open Value

/-- A result has the property `Q`, and the only error is that a number is infinite. -/
abbrev Finishes (Q : α → Prop) (c : Eval α) : Prop :=
  Eval.Ensures (fun _ => True) (fun e => e.code = .notFinite) Q c

variable {env : Environment} {span : Span} {q r : Quantity} {p : UnitProduct} {v w : Value}
  {array : Bool} {size : Nat} {P : Quantity → Prop}

theorem finishes_pure {Q : α → Prop} {a : α} (h : Q a) : Finishes Q (pure a) := Eval.ensures_pure h

theorem finishes_finite {Q : Value → Prop} (h : Q v) : Finishes Q (v.finite span) := by
  unfold Value.finite
  split
  · exact finishes_pure h
  · exact Eval.ensures_fail rfl

/-! ## Arithmetic -/

/-- A number times a quantity has the units of the quantity. -/
theorem finishes_mul (hq : q.In .one) (hr : r.In p) :
    Finishes (Quantity.In p) (combine env span .mul q r) := by
  have hnumber : q.isNumber = true := by
    rw [Quantity.isNumber, hq]
    rfl
  have hmul : q.mul? r = some (r.withMagnitude (q.magnitude * r.magnitude)) := by
    rw [Quantity.mul?, if_pos hnumber]
  change Finishes _ (orOverflow span (q.mul? r))
  rw [hmul]
  exact finishes_pure hr

theorem finishes_raise (hq : q.In .one) (hr : r.Pure) :
    Finishes (Quantity.In .one) (combine env span .exp q r) := by
  have hnumber : q.isNumber = true := by
    rw [Quantity.isNumber, hq]
    rfl
  have hdimensionless : (!r.isDimensionless) = false := by
    rw [Quantity.isDimensionless, hr.2]
    rfl
  change Finishes _ (raise span q r)
  unfold raise
  rw [hdimensionless]
  simp only [Bool.false_eq_true, if_false, hnumber, if_true]
  exact finishes_pure hq

theorem finishes_arrayOf {qs : List Quantity} (hne : qs ≠ []) (h : ∀ q ∈ qs, q.In p) :
    Finishes (Value.Fits true qs.length (Quantity.In p)) (arrayOf span qs) := by
  unfold arrayOf
  rw [ofElements_of_units hne h]
  exact finishes_pure (fits_array h)

/-- Numbers times a quantity have the units of the quantity. -/
theorem finishes_times (hpos : 0 < size) (hv : v.Fits array size (Quantity.In .one))
    (hw : w.Fits false 1 (Quantity.In p)) :
    Finishes (Value.Fits array size (Quantity.In p)) (broadcast span (combine env span .mul) v w) := by
  obtain ⟨r, rfl, hr⟩ := hw.eq_scalar
  obtain ⟨harray, hsize, hall⟩ := hv
  cases v with
  | scalar q =>
    cases harray
    cases hsize
    exact (finishes_mul (all_scalar.1 hall) hr).bind fun q hq => finishes_pure (fits_scalar hq)
  | array qs =>
    cases harray
    have helements : ∀ q ∈ qs, Finishes (Quantity.In p) (combine env span .mul q r) :=
      fun q hq => finishes_mul (all_array.1 hall q hq) hr
    refine (Eval.ensures_mapM_length helements).bind fun products hproducts => ?_
    have hlength : products.length = size := hproducts.1.trans hsize
    have hne : products ≠ [] := List.length_pos_iff.1 (hlength ▸ hpos)
    rw [← hlength]
    exact finishes_arrayOf hne hproducts.2

/-! ## Expressions -/

/-- Gives a value with a property wherever it is evaluated, or a number becomes infinite. -/
def Gives (env : Environment) (Q : Value → Prop) (e : Expr) : Prop :=
  ∀ enter locals, Finishes Q (value env enter locals e)

variable {Q Q' : Value → Prop} {e left right : Expr}

theorem Gives.imp (h : Gives env Q e) (hQ : ∀ v, Q v → Q' v) : Gives env Q' e :=
  fun enter locals => (h enter locals).imp hQ

theorem gives_const (span : Span) (literal : String) (x : Float) :
    Gives env (Value.Fits false 1 Quantity.Pure) (.const span literal x) := by
  intro enter locals
  rw [value]
  exact finishes_finite (fits_scalar ⟨rfl, rfl⟩)

theorem gives_group (h : Gives env Q e) (span : Span) : Gives env Q (.group span e) := by
  intro enter locals
  rw [value]
  exact h enter locals

theorem gives_negative (h : Gives env (Value.Fits false 1 Quantity.Pure) e) (span : Span) :
    Gives env (Value.Fits false 1 Quantity.Pure) (.signed span .negative e) := by
  intro enter locals
  rw [value]
  refine (h enter locals).bind fun v hv => ?_
  obtain ⟨q, rfl, hq⟩ := hv.eq_scalar
  exact finishes_pure (fits_scalar hq)

/-- A unit is read from its text. -/
theorem gives_unit {text : String} {q : Quantity} (hparse : env.table.parse text = .ok p)
    (hquantity : env.table.quantity? 1 p = some q) (hq : q.In p) (span : Span) :
    Gives env (Value.Fits false 1 (Quantity.In p)) (.unit span text) := by
  intro enter locals
  have hunit : unitQuantity env span text = pure q := by
    unfold unitQuantity
    rw [hparse]
    dsimp only
    rw [hquantity]
  rw [value, hunit]
  exact (finishes_pure hq).bind fun q hq => finishes_pure (fits_scalar hq)

theorem gives_binary {L R : Value → Prop} {op : BinaryOp} (hleft : Gives env L left)
    (hright : Gives env R right)
    (h : ∀ span v w, L v → R w → Finishes Q (broadcast span (combine env span op) v w)) :
    Gives env Q (Expr.join op left right) := by
  intro enter locals
  rw [Expr.join, value]
  refine (hleft enter locals).bind fun v hv => (hright enter locals).bind fun w hw => ?_
  exact (h _ v w hv hw).bind fun u hu => finishes_finite hu

theorem gives_times (hpos : 0 < size)
    (hleft : Gives env (Value.Fits array size (Quantity.In .one)) left)
    (hright : Gives env (Value.Fits false 1 (Quantity.In p)) right) :
    Gives env (Value.Fits array size (Quantity.In p)) (Expr.join .mul left right) :=
  gives_binary hleft hright fun _ _ _ hv hw => finishes_times hpos hv hw

theorem gives_power (hleft : Gives env (Value.Fits false 1 (Quantity.In .one)) left)
    (hright : Gives env (Value.Fits false 1 Quantity.Pure) right) :
    Gives env (Value.Fits false 1 (Quantity.In .one)) (Expr.join .exp left right) := by
  refine gives_binary hleft hright fun span v w hv hw => ?_
  obtain ⟨q, rfl, hq⟩ := hv.eq_scalar
  obtain ⟨r, rfl, hr⟩ := hw.eq_scalar
  exact (finishes_raise hq hr).bind fun q hq => finishes_pure (fits_scalar hq)

theorem finishes_scalars {es : List Expr} (h : ∀ e ∈ es, Gives env (Value.Fits false 1 P) e)
    (enter : Enter) (locals : List Value) :
    Finishes (fun qs => qs.length = es.length ∧ ∀ q ∈ qs, P q) (scalars env enter locals es) := by
  induction es with
  | nil =>
    rw [scalars]
    exact finishes_pure (by simp)
  | cons e es ih =>
    obtain ⟨he, hes⟩ := List.forall_mem_cons.1 h
    rw [scalars]
    refine (he enter locals).bind fun v hv => ?_
    obtain ⟨q, rfl, hq⟩ := hv.eq_scalar
    refine (ih hes).bind fun qs hqs => finishes_pure ?_
    exact ⟨congrArg (· + 1) hqs.1, List.forall_mem_cons.2 ⟨hq, hqs.2⟩⟩

theorem gives_array {es : List Expr} (hne : es ≠ [])
    (h : ∀ e ∈ es, Gives env (Value.Fits false 1 (Quantity.In p)) e) (span : Span) :
    Gives env (Value.Fits true es.length (Quantity.In p)) (.array span es) := by
  intro enter locals
  rw [value]
  refine (finishes_scalars h enter locals).bind fun qs hqs => ?_
  have hnonempty : qs ≠ [] := by
    intro hnil
    rw [hnil] at hqs
    exact hne (List.length_eq_zero_iff.1 hqs.1.symm)
  rw [ofElements_of_units hnonempty hqs.2, ← hqs.1]
  exact finishes_pure (fits_array hqs.2)

/-- What an expression gives is what its evaluation gives. -/
theorem Gives.eval (h : Gives env Q e) :
    (∃ error, (e.eval env).result.1 = .error error ∧ error.code = .notFinite) ∨
      ∃ v, (e.eval env).result.1 = .ok v ∧ Q v := by
  have hfinishes : Finishes Q (e.eval env) := by
    unfold Expr.eval
    cases env.settings.maxCallDepth with
    | zero => exact h none []
    | succ depth => exact h (some (valueAt env depth)) []
  have hresult := hfinishes.result.2
  cases houtcome : (e.eval env).result.1 with
  | error error =>
    rw [houtcome] at hresult
    exact .inl ⟨error, rfl, hresult⟩
  | ok v =>
    rw [houtcome] at hresult
    exact .inr ⟨v, rfl, hresult⟩

end Evaluation

end Worksheet
