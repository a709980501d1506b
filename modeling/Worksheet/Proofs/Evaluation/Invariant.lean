import Worksheet.Proofs.Evaluation.Visits
/-!
# Invariants of evaluation

A property of quantities that arithmetic keeps holds of all that is evaluated, if it holds of all
that is bound. What every step has to keep is said once.
-/

namespace Worksheet

/-- A property of quantities that has nothing to do with their magnitudes. -/
def Quantity.AnyMagnitude (P : Quantity → Prop) : Prop :=
  ∀ q x, P q → P (q.withMagnitude x)

/-- A property of quantities that all arithmetic keeps, with the units of a table. -/
structure Quantity.Invariant (t : UnitTable) (P : Quantity → Prop) : Prop where
  number : ∀ x, P (.number x)
  unit : ∀ {text units q}, t.parse text = .ok units → t.quantity? 1 units = some q → P q
  withMagnitude : Quantity.AnyMagnitude P
  toBase : ∀ {q}, P q → P q.toBase
  mul : ∀ {q r p}, P q → P r → q.mul? r = some p → P p
  div : ∀ {q r p}, P q → P r → q.div? r = some p → P p
  pow : ∀ {q p} x, P q → q.pow? x = some p → P p

/-- The property holds of every quantity of the value. -/
def Value.All (P : Quantity → Prop) (v : Value) : Prop := ∀ q ∈ v.quantities, P q

/-- The property holds of every quantity that is bound. -/
def Registry.All (P : Quantity → Prop) (r : Registry) : Prop :=
  ∀ e ∈ r.entries, ∀ v source, e.binder = .value v source → v.All P

namespace Value

variable {P : Quantity → Prop}

@[simp] theorem all_scalar {q : Quantity} : (Value.scalar q).All P ↔ P q := by
  simp [All, quantities]

@[simp] theorem all_array {qs : List Quantity} : (Value.array qs).All P ↔ ∀ q ∈ qs, P q := by
  simp [All, quantities]

theorem All.map {v : Value} {f : Quantity → Quantity} (hv : v.All P) (hf : ∀ q, P q → P (f q)) :
    (v.map f).All P := by
  cases v with
  | scalar q => simpa [Value.map] using hf q (by simpa using hv)
  | array qs => simpa [Value.map] using fun q hq => hf q (all_array.1 hv q hq)

theorem forall₂_of_convertAll {target : Quantity} {i : Nat} {qs ps : List Quantity}
    (h : convertAll target i qs = .ok ps) :
    List.Forall₂ (fun q p => q.convertTo? target = some p) qs ps := by
  induction qs generalizing i ps with
  | nil =>
    cases h
    exact .nil
  | cons q qs ih =>
    simp only [convertAll] at h
    split at h
    · rename_i converted hconverted
      cases hrest : convertAll target (i + 1) qs with
      | error j => simp [hrest, Except.map] at h
      | ok others =>
        simp only [hrest, Except.map, Except.ok.injEq] at h
        subst h
        exact .cons hconverted (ih hrest)
    · cases h

/-- Quantities become an array as they are, if they are all in the units of the first, or else each
of them is converted to these. -/
theorem ofElements_eq_ok {qs : List Quantity} {v : Value} (h : ofElements qs = .ok v) :
    ∃ first rest ps, qs = first :: rest ∧ v = .array ps ∧
      ((∀ q ∈ qs, q.units = first.units) ∧ ps = qs ∨
        List.Forall₂ (fun q p => q.convertTo? first = some p) qs ps) := by
  cases qs with
  | nil => cases h
  | cons first rest =>
    simp only [ofElements] at h
    split at h
    · rename_i hall
      cases h
      refine ⟨first, rest, _, rfl, rfl, .inl ⟨?_, rfl⟩⟩
      exact List.forall_mem_cons.2 ⟨rfl, by simpa using hall⟩
    · cases hconverted : convertAll first 0 (first :: rest) with
      | error i => simp [hconverted, Except.map] at h
      | ok ps =>
        simp only [hconverted, Except.map, Except.ok.injEq] at h
        exact ⟨first, rest, ps, rfl, h.symm, .inr (forall₂_of_convertAll hconverted)⟩

end Value

theorem Quantity.Invariant.and {t : UnitTable} {P R : Quantity → Prop}
    (hP : Quantity.Invariant t P) (hR : Quantity.Invariant t R) :
    Quantity.Invariant t fun q => P q ∧ R q where
  number x := ⟨hP.number x, hR.number x⟩
  unit hunits h := ⟨hP.unit hunits h, hR.unit hunits h⟩
  withMagnitude q x hq := ⟨hP.withMagnitude q x hq.1, hR.withMagnitude q x hq.2⟩
  toBase hq := ⟨hP.toBase hq.1, hR.toBase hq.2⟩
  mul hq hr h := ⟨hP.mul hq.1 hr.1 h, hR.mul hq.2 hr.2 h⟩
  div hq hr h := ⟨hP.div hq.1 hr.1 h, hR.div hq.2 hr.2 h⟩
  pow x hq h := ⟨hP.pow x hq.1 h, hR.pow x hq.2 h⟩

namespace Quantity.AnyMagnitude

variable {P : Quantity → Prop} (hP : AnyMagnitude P)
include hP

theorem add {q r p : Quantity} (hq : P q) (h : q.add? r = some p) : P p := by
  unfold Quantity.add? at h
  split at h
  · cases h
    exact hP _ _ hq
  · cases h

theorem sub {q r p : Quantity} (hq : P q) (h : q.sub? r = some p) : P p := by
  unfold Quantity.sub? at h
  split at h
  · cases h
    exact hP _ _ hq
  · cases h

theorem neg {q : Quantity} (hq : P q) : P q.neg := hP _ _ hq

theorem convertTo {q target p : Quantity} (ht : P target) (h : q.convertTo? target = some p) :
    P p := by
  unfold Quantity.convertTo? at h
  split at h
  · cases h
    exact hP _ _ ht
  · cases h

theorem ofElements {qs : List Quantity} {v : Value} (hqs : ∀ q ∈ qs, P q)
    (h : Value.ofElements qs = .ok v) : v.All P := by
  obtain ⟨first, rest, ps, rfl, rfl, ⟨-, rfl⟩ | hconverted⟩ := Value.ofElements_eq_ok h
  · exact Value.all_array.2 hqs
  · refine Value.all_array.2 fun p hp => ?_
    obtain ⟨q, -, hqp⟩ := exists_of_forall₂ hconverted p hp
    exact hP.convertTo (hqs first List.mem_cons_self) hqp

end Quantity.AnyMagnitude

/-- What an evaluation starts from: an invariant that holds of all that is bound. -/
structure Environment.Invariant (env : Environment) (P : Quantity → Prop) : Prop where
  quantity : Quantity.Invariant env.table P
  bound : env.registry.All P

namespace Evaluation

/-- The result has a property; errors and warnings may be any. -/
abbrev Keeps (Q : α → Prop) (c : Eval α) : Prop :=
  Eval.Ensures (fun _ => True) (fun _ => True) Q c

variable {env : Environment} {P : Quantity → Prop}

theorem keeps_pure {Q : α → Prop} {a : α} (h : Q a) : Keeps Q (pure a) := Eval.ensures_pure h

theorem keeps_fail {Q : α → Prop} {code : ErrorCode} {span : Span} {details : Option String} :
    Keeps Q (Eval.fail code span details : Eval α) := Eval.ensures_fail trivial

theorem keeps_any (c : Eval α) : Keeps (fun _ => True) c := by
  refine fun before _ => ⟨fun _ _ => trivial, ?_⟩
  split <;> trivial

theorem finite_keeps {v : Value} {span : Span} (hv : v.All P) :
    Keeps (Value.All P) (v.finite span) := by
  unfold Value.finite
  split
  · exact keeps_pure hv
  · exact keeps_fail

theorem orOverflow_keeps {span : Span} {q? : Option Quantity} (h : ∀ q, q? = some q → P q) :
    Keeps P (orOverflow span q?) := by
  cases q? with
  | some q => exact keeps_pure (h q rfl)
  | none => exact keeps_fail

theorem addOrSub_keeps (henv : env.Invariant P) {span : Span} {verb : String}
    {combine? : Quantity → Quantity → Option Quantity} {q r : Quantity} (hq : P q)
    (h : ∀ p, combine? q r = some p → P p) :
    Keeps P (addOrSub env span verb combine? q r) := by
  unfold addOrSub
  split
  · rename_i p hp
    exact keeps_pure (h p hp)
  · split
    · exact keeps_fail
    · apply (Eval.ensures_warn trivial).bind
      intro _ _
      exact keeps_pure (henv.quantity.toBase hq)

theorem raise_keeps (henv : env.Invariant P) {span : Span} {q exponent : Quantity} (hq : P q) :
    Keeps P (raise span q exponent) := by
  unfold raise
  split
  · exact keeps_fail
  · split
    · exact keeps_pure (henv.quantity.withMagnitude _ _ hq)
    · dsimp only
      split
      · rename_i result hresult
        exact keeps_pure (henv.quantity.pow _ hq hresult)
      · exact keeps_fail

theorem combine_keeps (henv : env.Invariant P) {span : Span} {op : BinaryOp} {q r : Quantity}
    (hq : P q) (hr : P r) : Keeps P (combine env span op q r) := by
  cases op with
  | add => exact addOrSub_keeps henv hq fun p hp => henv.quantity.withMagnitude.add hq hp
  | sub => exact addOrSub_keeps henv hq fun p hp => henv.quantity.withMagnitude.sub hq hp
  | mul => exact orOverflow_keeps fun p hp => henv.quantity.mul hq hr hp
  | div =>
    change Keeps P (divide span q r)
    unfold divide
    split
    · exact keeps_fail
    · exact orOverflow_keeps fun p hp => henv.quantity.div hq hr hp
  | exp => exact raise_keeps henv hq

theorem arrayOf_keeps (henv : env.Invariant P) {span : Span} {qs : List Quantity}
    (hqs : ∀ q ∈ qs, P q) : Keeps (Value.All P) (arrayOf span qs) := by
  unfold arrayOf
  split
  · rename_i v hv
    exact keeps_pure (henv.quantity.withMagnitude.ofElements hqs hv)
  · exact keeps_fail

theorem broadcast_keeps (henv : env.Invariant P) {span : Span}
    {f : Quantity → Quantity → Eval Quantity} (hf : ∀ q r, P q → P r → Keeps P (f q r))
    {v w : Value} (hv : v.All P) (hw : w.All P) :
    Keeps (Value.All P) (broadcast span f v w) := by
  cases v with
  | scalar q =>
    have hq : P q := by simpa using hv
    cases w with
    | scalar r =>
      apply (hf q r hq (by simpa using hw)).bind
      intro p hp
      exact keeps_pure (by simpa using hp)
    | array rs =>
      apply (Eval.ensures_mapM fun r hr => hf q r hq (Value.all_array.1 hw r hr)).bind
      intro ps hps
      exact arrayOf_keeps henv hps
  | array qs =>
    have hqs := Value.all_array.1 hv
    cases w with
    | scalar r =>
      apply (Eval.ensures_mapM fun q hq => hf q r (hqs q hq) (by simpa using hw)).bind
      intro ps hps
      exact arrayOf_keeps henv hps
    | array rs =>
      have hrs := Value.all_array.1 hw
      change Keeps (Value.All P) (if qs.length = rs.length then _ else _)
      split
      · refine (Eval.ensures_mapM fun pair hpair => ?_).bind fun ps hps => arrayOf_keeps henv hps
        have hmem := List.of_mem_zip hpair
        exact hf _ _ (hqs _ hmem.1) (hrs _ hmem.2)
      · exact keeps_fail

theorem element_keeps {span positionSpan : Span} {base position : Value} (hbase : base.All P) :
    Keeps (Value.All P) (element span positionSpan base position) := by
  cases base with
  | scalar q => exact keeps_fail
  | array elements =>
    simp only [element]
    split
    · exact keeps_fail
    · split
      · rename_i q hq
        obtain ⟨n, -, hn⟩ := Option.bind_eq_some_iff.1 hq
        split at hn
        · cases hn
        · exact keeps_pure (by simpa using Value.all_array.1 hbase q (List.mem_of_getElem? hn))
      · exact keeps_fail

theorem mapM_keeps {f : Quantity → Eval Quantity} {v : Value} (hv : v.All P)
    (hf : ∀ q, P q → Keeps P (f q)) : Keeps (Value.All P) (v.mapM f) := by
  cases v with
  | scalar q =>
    apply (hf q (by simpa using hv)).bind
    intro p hp
    exact keeps_pure (by simpa using hp)
  | array qs =>
    apply (Eval.ensures_mapM fun q hq => hf q (Value.all_array.1 hv q hq)).bind
    intro ps hps
    exact keeps_pure (by simpa using hps)

theorem reduce_keeps (henv : env.Invariant P) {span : Span} {f : List Float → Float}
    {args : List Value} (hargs : ∀ v ∈ args, v.All P) :
    Keeps (Value.All P) (reduce span f args) := by
  have hflat : ∀ q ∈ args.flatMap Value.quantities, P q := by
    intro q hq
    obtain ⟨v, hv, hqv⟩ := List.mem_flatMap.1 hq
    exact hargs v hv q hqv
  unfold reduce
  split
  · exact keeps_fail
  · rename_i v hv
    split
    · exact keeps_fail
    · rename_i first hfirst
      have hall := henv.quantity.withMagnitude.ofElements hflat hv
      refine keeps_pure (Value.all_scalar.2 (henv.quantity.withMagnitude _ _ (hall first ?_)))
      exact List.mem_of_mem_head? hfirst

theorem applyBuiltin_keeps (henv : env.Invariant P) {b : Builtin} {span : Span}
    {args : List Value} (hargs : ∀ v ∈ args, v.All P) :
    Keeps (Value.All P) (applyBuiltin b span args) := by
  have hnumber : ∀ x, (Value.number x).All P := fun x =>
    Value.all_scalar.2 (henv.quantity.number x)
  have hmagnitude : ∀ f : Float → Float, ∀ v ∈ args,
      Keeps (Value.All P) (pure (mapMagnitude f v)) := fun f v hv =>
    keeps_pure ((hargs v hv).map fun q hq => henv.quantity.withMagnitude _ _ hq)
  have hroot : ∀ v ∈ args, Keeps (Value.All P) (v.mapM (squareRoot span)) := by
    intro v hv
    refine mapM_keeps (hargs v hv) fun q hq => ?_
    unfold squareRoot
    split
    · rename_i root hroot
      exact keeps_pure (henv.quantity.pow _ hq hroot)
    · exact keeps_fail
  have htranscendental : ∀ v ∈ args, Keeps (Value.All P) (v.mapM (transcendental b span)) := by
    intro v hv
    refine mapM_keeps (hargs v hv) fun q _ => ?_
    unfold transcendental
    split
    · exact keeps_pure (henv.quantity.number _)
    · exact keeps_fail
  unfold applyBuiltin
  split
  case h_1 => exact keeps_pure (hnumber _)
  case h_2 | h_3 | h_4 | h_5 => exact reduce_keeps henv hargs
  case h_6 => exact hroot _ List.mem_cons_self
  case h_7 | h_8 | h_9 | h_10 => exact hmagnitude _ _ List.mem_cons_self
  case h_11 => exact keeps_pure (hnumber _)
  case h_12 => exact htranscendental _ List.mem_cons_self
  case h_13 => exact keeps_fail

theorem unitQuantity_keeps (henv : env.Invariant P) {span : Span} {text : String} :
    Keeps P (unitQuantity env span text) := by
  unfold unitQuantity
  split
  · exact keeps_fail
  · rename_i units hunits
    split
    · rename_i q hq
      exact keeps_pure (henv.quantity.unit hunits hq)
    · exact keeps_fail

/-- Every step keeps a property of all quantities that arithmetic keeps. -/
theorem law_all (henv : env.Invariant P) : Law env (Value.All P) where
  number _ x _ := (finite_keeps (Value.all_scalar.2 (henv.quantity.number x))).of_ok
  unit _ _ _ hq := Value.all_scalar.2 ((unitQuantity_keeps henv).of_ok hq)
  element _ _ _ _ _ hbase := (element_keeps hbase).of_ok
  neg _ hv := hv.map fun _ hq => henv.quantity.withMagnitude.neg hq
  binary _ _ _ _ _ hl hr :=
    ((broadcast_keeps henv (fun _ _ hq hr => combine_keeps henv hq hr) hl hr).bind
      fun _ hv => finite_keeps hv).of_ok
  builtin _ _ _ _ hargs :=
    ((applyBuiltin_keeps henv hargs).bind fun _ hv => finite_keeps hv).of_ok

theorem literalsKeep_all (henv : env.Invariant P) (p : Point) :
    LiteralsKeep env (Value.All P) p :=
  fun _ _ _ _ _ _ _ hqs _ hv =>
    henv.quantity.withMagnitude.ofElements (fun q hq => Value.all_scalar.1 (hqs q hq)) hv

end Evaluation

/-- Evaluation keeps the invariant: the value has it if there is one. The warnings are of sums of
different dimensions in the expression. -/
theorem Expr.eval_keeps {env : Environment} {P : Quantity → Prop} (henv : env.Invariant P)
    (e : Expr) :
    (∀ w ∈ (e.eval env).result.2, w.Mismatch e.Marks) ∧
      ∀ v, (e.eval env).result.1 = .ok v → v.All P := by
  have hreports := Evaluation.valueAt_reports (p := Evaluation.root env e) (Evaluation.law_all henv)
    henv.bound (by simp [Evaluation.root]) (Evaluation.literalsKeep_all henv _)
  exact ⟨hreports.warnings, fun v hv => hreports.outcome.result hv⟩

end Worksheet
