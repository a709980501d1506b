import Worksheet.Proofs.Document.Run
import Worksheet.Proofs.Number.Finite
import Worksheet.Proofs.Quantity.Arithmetic
/-!
# Finite values

Numbers, operations and builtins are checked: what is infinite or no number there is an error.
Everything else passes on what it finds, except for arrays that are written out. These convert their
elements to the units of the first one, and a conversion can make a number infinite.
-/

namespace Worksheet

def Quantity.IsFinite (q : Quantity) : Prop := q.magnitude.isFinite = true

instance : DecidablePred Quantity.IsFinite :=
  fun q => inferInstanceAs (Decidable (q.magnitude.isFinite = true))

/-- All magnitudes of the value are finite. -/
def Value.IsFinite (v : Value) : Prop := v.All Quantity.IsFinite

instance : DecidablePred Value.IsFinite :=
  fun v => inferInstanceAs (Decidable (∀ q ∈ v.quantities, q.IsFinite))

namespace Evaluation

open Eval

variable {env : Environment} {span : Span} {v : Value} {p : Point}

/-- A value passes its check as it is, or is an error. -/
def check (v : Value) (span : Span) : Except Error Value :=
  if v.IsFinite then .ok v else .error ⟨.notFinite, span, none⟩

theorem finite_result (v : Value) (span : Span) : (v.finite span).result.1 = check v span := by
  have hcheck : (v.quantities.all fun q => q.magnitude.isFinite) = true ↔ v.IsFinite :=
    List.all_eq_true
  unfold Value.finite check
  by_cases h : v.IsFinite
  · rw [if_pos h, if_pos (hcheck.2 h)]
    rfl
  · rw [if_neg h, if_neg (mt hcheck.1 h)]
    rfl

theorem finite_keeps_isFinite (v : Value) : Keeps Value.IsFinite (v.finite span) := by
  unfold Value.finite
  split
  · rename_i h
    exact keeps_pure (List.all_eq_true.1 h)
  · exact keeps_fail

theorem unitQuantity_isFinite (text : String) :
    Keeps Quantity.IsFinite (unitQuantity env span text) := by
  unfold unitQuantity
  split
  · exact keeps_fail
  · split
    · rename_i q hq
      obtain ⟨-, hmagnitude, -⟩ := UnitTable.quantity?_eq_some hq
      refine keeps_pure ?_
      rw [Quantity.IsFinite, hmagnitude]
      decide
    · exact keeps_fail

/-- Wherever a value is computed it is checked, and the other steps only pass on what they find. -/
theorem law_finite (env : Environment) : Law env Value.IsFinite where
  number _ x _ h := (finite_keeps_isFinite (.number x)).of_ok h
  unit _ text _ h := Value.all_scalar.2 ((unitQuantity_isFinite text).of_ok h)
  element _ _ _ _ _ hbase h := (element_keeps hbase).of_ok h
  neg _ hv := hv.map fun _ hq => Number.isFinite_neg hq
  binary _ _ _ _ _ _ _ h := ((keeps_any _).bind fun v _ => finite_keeps_isFinite v).of_ok h
  builtin _ _ _ _ _ h := ((keeps_any _).bind fun v _ => finite_keeps_isFinite v).of_ok h

/-- What a number, an operation or a builtin comes to before it is checked. -/
inductive Computes (env : Environment) : Point → Except Error Value → Prop where
  | number {depth : Nat} {locals : List Value} {span : Span} {literal : String} {x : Float} :
      Computes env ⟨depth, locals, .const span literal x⟩ (.ok (.number x))
  | operation {depth : Nat} {locals : List Value} {span : Span} {op : BinaryOp}
      {left right : Expr} :
      Computes env ⟨depth, locals, .binary span op left right⟩ (do
        let l ← outcome env ⟨depth, locals, left⟩
        let r ← outcome env ⟨depth, locals, right⟩
        (broadcast span (combine env span op) l r).result.1)
  | builtin {depth : Nat} {locals : List Value} {span : Span} {name : Name} {b : Builtin}
      {args : List Expr} (harity : b.arity.accepts args.length = true) :
      Computes env ⟨depth, locals, .call span name (.builtin b) args⟩ (do
        let vs ← (values env (enterAt env depth) locals args).result.1
        (applyBuiltin b span vs).result.1)

theorem finite_steady (v : Value) (span : Span) : Steady (v.finite span) :=
  finite_reports trivial v

theorem checked_result {c : Eval Value} (hc : Steady c) (span : Span) :
    (c >>= fun v => v.finite span).result.1 = c.result.1 >>= fun v => check v span := by
  rw [hc.result_bind fun v => finite_steady v span]
  exact bind_congr fun v => finite_result v span

/-- A number, an operation or a builtin is finite, or is an error at its place. -/
theorem Computes.outcome_eq {raw : Except Error Value} (h : Computes env p raw) :
    outcome env p = raw >>= fun v => check v p.expr.span := by
  cases h with
  | number =>
    rw [outcome, valueAt_eq, value]
    exact finite_result _ _
  | @operation depth locals span op left right =>
    have hvalue := value_steady env depth locals
    have hcombined : ∀ l r, Steady (broadcast span (combine env span op) l r) :=
      broadcast_reports trivial (combine_reports trivial op)
    have hchecked : ∀ l r, Steady (do
        let v ← broadcast span (combine env span op) l r
        v.finite span) :=
      fun l r => (hcombined l r).bind fun v => finite_steady v span
    simp only [outcome, valueAt_eq, value, bind_assoc]
    rw [(hvalue left).result_bind fun l => (hvalue right).bind fun r => hchecked l r]
    refine bind_congr fun l => ?_
    rw [(hvalue right).result_bind fun r => hchecked l r]
    exact bind_congr fun r => checked_result (hcombined l r) span
  | @builtin depth locals span name b args harity =>
    have happlied : ∀ vs, Steady (applyBuiltin b span vs) := applyBuiltin_reports trivial b
    simp only [outcome, valueAt_eq, value, bind_assoc, if_pos harity]
    rw [(values_steady env depth locals args).result_bind fun vs =>
      (happlied vs).bind fun v => finite_steady v span]
    exact bind_congr fun vs => checked_result (happlied vs) span

/-- An array that is written out comes to its elements, in the units of the first one. -/
theorem outcome_array {depth : Nat} {locals : List Value} {elements : List Expr}
    {qs : List Quantity}
    (hqs : (scalars env (enterAt env depth) locals elements).result.1 = .ok qs)
    (hv : Value.ofElements qs = .ok v) :
    outcome env ⟨depth, locals, .array span elements⟩ = .ok v := by
  have helements := scalars_steady env depth locals elements
  rw [outcome, valueAt_eq, value, helements.result_bind, hqs, ok_bind, hv]
  · rfl
  · intro qs'
    split
    · exact reports_done
    · exact reports_fail trivial

/-! ## Conversions -/

/-- An array that is written out converts elements, and comes to other ones than were written. -/
inductive Converts (env : Environment) : Point → List Quantity → Prop where
  | array {depth : Nat} {locals : List Value} {span : Span} {elements : List Expr}
      {qs ps : List Quantity}
      (written : (scalars env (enterAt env depth) locals elements).result.1 = .ok qs)
      (converted : Value.ofElements qs = .ok (.array ps)) (changed : ps ≠ qs) :
      Converts env ⟨depth, locals, .array span elements⟩ ps

/-- Whatever evaluation comes to on its way has a finite value, if it has one. -/
def FiniteWay (env : Environment) (p : Point) : Prop :=
  ∀ p', Visits env p p' → ∀ v, outcome env p' = .ok v → v.IsFinite

/-- All elements that are converted on the way are finite then. -/
def FiniteConversions (env : Environment) (p : Point) : Prop :=
  ∀ p', Visits env p p' → ∀ ps, Converts env p' ps → ∀ q ∈ ps, q.IsFinite

theorem FiniteConversions.literalsKeep (h : FiniteConversions env p) :
    LiteralsKeep env Value.IsFinite p := by
  intro depth locals span elements hvisit qs v hfinite hqs hv
  obtain ⟨-, -, ps, -, rfl, -⟩ := Value.ofElements_eq_ok hv
  refine Value.all_array.2 ?_
  by_cases hchanged : ps = qs
  · exact hchanged ▸ fun q hq => Value.all_scalar.1 (hfinite q hq)
  · exact h _ hvisit ps (.array hqs hv hchanged)

/-- A conversion is all that can make an infinite number unseen. -/
theorem finiteWay_iff (hbound : env.registry.Holds Value.IsFinite)
    (hlocals : ∀ v ∈ p.locals, v.IsFinite) : FiniteWay env p ↔ FiniteConversions env p := by
  constructor
  · rintro h p' hvisit ps ⟨hqs, hps, -⟩
    exact Value.all_array.1 (h _ hvisit _ (outcome_array hqs hps))
  · intro h p' hvisit v hv
    obtain ⟨hlocals', hliterals'⟩ :=
      hvisit.keeps (law_finite env) hbound hlocals h.literalsKeep
    exact (valueAt_reports (law_finite env) hbound hlocals' hliterals').outcome.result hv

end Evaluation

namespace Document

/-- What the arrays convert that the statements write out is finite, each time in the document that
the statement is run in. -/
def FiniteConversions (d : Document) : List (String × Option String) → Prop
  | [] => True
  | (text, hint) :: steps =>
    (∀ e, d.Evaluates text e →
      Evaluation.FiniteConversions d.environment (Evaluation.root d.environment e)) ∧
    (d.process text hint).2.FiniteConversions steps

theorem eval_isFinite {env : Environment} (hbound : env.registry.Holds Value.IsFinite) {e : Expr}
    (h : Evaluation.FiniteConversions env (Evaluation.root env e)) (v : Value)
    (hv : (e.eval env).result.1 = .ok v) : v.IsFinite :=
  (Evaluation.finiteWay_iff hbound (by simp [Evaluation.root])).2 h _ .refl v hv

theorem processEach_isFinite {d : Document} (hd : d.registry.Holds Value.IsFinite)
    {steps : List (String × Option String)} (h : d.FiniteConversions steps) :
    (d.processEach steps).2.registry.Holds Value.IsFinite := by
  induction steps generalizing d with
  | nil => exact hd
  | cons step steps ih =>
    exact ih (process_holds hd (fun e v he hv => eval_isFinite hd (h.1 e he) v hv) step.2) h.2

/-- Where all that is bound is finite, all values that evaluation comes to on its way are finite
exactly if the elements are that written-out arrays convert, and then so is the result. What is
computed and not finite is an error at its place. With any units and settings, statements bind only
finite values as long as these conversions come to finite ones. -/
theorem finiteWay_iff_finiteConversions (env : Environment) :
    (env.registry.Holds Value.IsFinite → ∀ e : Expr,
      let start := Evaluation.root env e
      (Evaluation.FiniteWay env start ↔ Evaluation.FiniteConversions env start) ∧
        (Evaluation.FiniteConversions env start →
          ∀ v, (e.eval env).result.1 = .ok v → v.IsFinite)) ∧
    (∀ p raw, Evaluation.Computes env p raw →
      Evaluation.outcome env p = raw >>= fun v => Evaluation.check v p.expr.span) ∧
    ∀ (t : UnitTable) (settings : Settings) (steps : List (String × Option String)),
      let d : Document := { table := t, settings }
      d.FiniteConversions steps → (d.processEach steps).2.registry.Holds Value.IsFinite := by
  refine ⟨fun hbound e => ⟨?_, eval_isFinite hbound⟩, fun p raw h => h.outcome_eq, ?_⟩
  · exact Evaluation.finiteWay_iff hbound (by simp [Evaluation.root])
  · intro t settings steps d h
    have hempty : d.registry.Holds Value.IsFinite := fun e he => absurd he List.not_mem_nil
    exact processEach_isFinite hempty h

/-- A meter, and more kilometers than can be written in meters. -/
def distances : String := "x := [1\\,\\mathrm\x7bm\x7d, 1e308\\,\\mathrm\x7bkm\x7d]"

set_option maxRecDepth 100000 in
/-- The second distance is bound as infinitely many meters. -/
theorem not_isFinite_distances :
    ¬((fresh {}).processAll [distances]).2.registry.Holds Value.IsFinite := by
  rw [fresh_eq_listed]
  decide +kernel

end Document

end Worksheet
