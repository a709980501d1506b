import Worksheet.Proofs.Evaluation.Visits
/-!
# The two policies for sums of different dimensions

Such a sum is a warning under one policy and an error under the other. The two evaluations of an
expression are the same up to the first such sum; there the strict one ends, and the lenient one has
a warning that it never loses. So a value is the same under both policies, or comes with a warning.
-/

namespace Worksheet

/-- The environment under another policy. -/
def Environment.under (env : Environment) (policy : MismatchPolicy) : Environment :=
  { env with settings := { env.settings with mismatch := policy } }

theorem Environment.under_table (env : Environment) (policy : MismatchPolicy) :
    (env.under policy).table = env.table := rfl

theorem Environment.under_registry (env : Environment) (policy : MismatchPolicy) :
    (env.under policy).registry = env.registry := rfl

namespace Eval

/-! ## Computations that do not warn -/

/-- The warnings stay as they are, and make no difference. -/
def Quiet (c : Eval α) : Prop := ∀ before, c.run.run before = (c.result.1, before)

theorem quiet_pure {a : α} : Quiet (pure a) := fun _ => rfl

theorem quiet_fail {code : ErrorCode} {span : Span} {details : Option String} :
    Quiet (fail code span details : Eval α) := fun _ => rfl

theorem Quiet.bind {c : Eval α} {f : α → Eval β} (hc : Quiet c) (hf : ∀ a, Quiet (f a)) :
    Quiet (c >>= f) := by
  have hrun : ∀ before, (c >>= f).run.run before =
      (c.result.1 >>= fun a => (f a).result.1, before) := by
    intro before
    rw [run_bind, hc before]
    cases c.result.1 with
    | error e => rfl
    | ok a => exact hf a before
  intro before
  have hresult : (c >>= f).result.1 = c.result.1 >>= fun a => (f a).result.1 :=
    congrArg Prod.fst (hrun [])
  rw [hrun before, hresult]

theorem quiet_mapM {f : α → Eval β} (hf : ∀ a, Quiet (f a)) (as : List α) :
    Quiet (as.mapM f) := by
  induction as with
  | nil => exact quiet_pure
  | cons a as ih =>
    rw [List.mapM_cons]
    exact (hf a).bind fun b => ih.bind fun bs => quiet_pure

/-! ## Two computations that agree -/

/-- Without warnings to begin with, the strict computation does what the lenient one does as long as
that does not warn, and fails with the code of the warning where it does. A warning is never lost,
so that what comes after it cannot hide it. -/
structure Agrees (lenient strict : Eval α) : Prop where
  keeps : ∀ before, before ≠ [] → (lenient.run.run before).2 ≠ []
  silent : (lenient.run.run []).2 = [] → strict.run.run [] = lenient.run.run []
  warned : (lenient.run.run []).2 ≠ [] →
    ∃ e, strict.run.run [] = (.error e, []) ∧ e.code = .dimensionMismatch

theorem Quiet.agrees {c : Eval α} (hc : Quiet c) : Agrees c c where
  keeps before hne := by
    rw [hc before]
    exact hne
  silent _ := rfl
  warned hne := by
    rw [hc []] at hne
    exact absurd rfl hne

variable {lenient strict : Eval α} {f g : α → Eval β}

theorem Agrees.bind (h : Agrees lenient strict) (hf : ∀ a, Agrees (f a) (g a)) :
    Agrees (lenient >>= f) (strict >>= g) := by
  have hkeeps : ∀ before, (lenient.run.run before).2 ≠ [] →
      ((lenient >>= f).run.run before).2 ≠ [] := by
    intro before hne
    rw [run_bind]
    cases hrun : lenient.run.run before with
    | mk result after =>
      rw [hrun] at hne
      cases result with
      | error e => exact hne
      | ok a => exact (hf a).keeps after hne
  by_cases hafter : (lenient.run.run []).2 = []
  · -- the first parts are the same, and the rest begins without warnings
    have hstrict := h.silent hafter
    cases hrun : lenient.run.run [] with
    | mk result after =>
      rw [hrun] at hafter hstrict
      obtain rfl : after = [] := hafter
      refine ⟨fun before hne => hkeeps before (h.keeps before hne), ?_, ?_⟩ <;>
        rw [run_bind, run_bind, hrun, hstrict]
      · cases result with
        | error e => exact fun _ => rfl
        | ok a => exact (hf a).silent
      · cases result with
        | error e => exact fun hne => absurd rfl hne
        | ok a => exact (hf a).warned
  · obtain ⟨e, hstrict, hcode⟩ := h.warned hafter
    refine ⟨fun before hne => hkeeps before (h.keeps before hne),
      fun hnil => absurd hnil (hkeeps [] hafter), fun _ => ⟨e, ?_, hcode⟩⟩
    rw [run_bind, hstrict]

theorem agrees_mapM (hf : ∀ a, Agrees (f a) (g a)) (as : List α) :
    Agrees (as.mapM f) (as.mapM g) := by
  induction as with
  | nil => exact quiet_pure.agrees
  | cons a as ih =>
    rw [List.mapM_cons, List.mapM_cons]
    exact (hf a).bind fun b => ih.bind fun bs => quiet_pure.agrees

/-- A call moves warnings and errors to another place, and keeps their number and their codes. -/
theorem Agrees.atCall (h : Agrees lenient strict) (span : Span) :
    Agrees (Eval.atCall span lenient) (Eval.atCall span strict) := by
  have hnil : ((Eval.atCall span lenient).run.run []).2 = [] ↔ (lenient.run.run []).2 = [] := by
    rw [run_atCall]
    simp
  refine ⟨fun before hne => ?_, fun hsilent => ?_, fun hwarned => ?_⟩
  · have hbody := h.keeps before hne
    rw [run_atCall]
    intro hempty
    obtain ⟨htake, -⟩ := List.append_eq_nil_iff.1 hempty
    rcases List.take_eq_nil_iff.1 htake with hlength | hnone
    · exact hne (List.length_eq_zero_iff.1 hlength)
    · exact hbody hnone
  · rw [run_atCall, run_atCall, h.silent (hnil.1 hsilent)]
  · obtain ⟨e, hstrict, hcode⟩ := h.warned fun hempty => hwarned (hnil.2 hempty)
    refine ⟨{ e with span }, ?_, hcode⟩
    rw [run_atCall, hstrict]
    rfl

/-- A warning under one policy is an error under the other. -/
theorem agrees_mismatch (span : Span) (details : String) (a : α) :
    Agrees (do warn .dimensionMismatch span details; pure a)
      (fail .dimensionMismatch span (some details)) where
  keeps before hne := by
    rw [run_bind]
    change (if before.any fun w => w.code = .dimensionMismatch ∧ w.span = span then before
      else before ++ [_]) ≠ []
    split
    · exact hne
    · simp
  silent hnil := nomatch hnil
  warned _ := ⟨_, rfl, rfl⟩

end Eval

namespace Evaluation

open Eval

variable {span : Span}

/-! ## Steps that do not warn -/

theorem finite_quiet (v : Value) : Quiet (v.finite span) := by
  unfold Value.finite
  split
  · exact quiet_pure
  · exact quiet_fail

theorem orOverflow_quiet (q? : Option Quantity) : Quiet (orOverflow span q?) := by
  cases q? with
  | some q => exact quiet_pure
  | none => exact quiet_fail

theorem divide_quiet (q r : Quantity) : Quiet (divide span q r) := by
  unfold divide
  split
  · exact quiet_fail
  · exact orOverflow_quiet _

theorem raise_quiet (q exponent : Quantity) : Quiet (raise span q exponent) := by
  unfold raise
  split
  · exact quiet_fail
  · split
    · exact quiet_pure
    · dsimp only
      split
      · exact quiet_pure
      · exact quiet_fail

theorem arrayOf_quiet (qs : List Quantity) : Quiet (arrayOf span qs) := by
  unfold arrayOf
  split
  · exact quiet_pure
  · exact quiet_fail

theorem element_quiet {positionSpan : Span} (base position : Value) :
    Quiet (element span positionSpan base position) := by
  cases base with
  | scalar q => exact quiet_fail
  | array elements =>
    simp only [element]
    split
    · exact quiet_fail
    · split
      · exact quiet_pure
      · exact quiet_fail

theorem valueMapM_quiet {f : Quantity → Eval Quantity} (hf : ∀ q, Quiet (f q)) (v : Value) :
    Quiet (v.mapM f) := by
  cases v with
  | scalar q => exact (hf q).bind fun _ => quiet_pure
  | array qs => exact (quiet_mapM hf qs).bind fun _ => quiet_pure

theorem reduce_quiet (f : List Float → Float) (args : List Value) : Quiet (reduce span f args) := by
  unfold reduce
  split
  · exact quiet_fail
  · split
    · exact quiet_fail
    · exact quiet_pure

theorem applyBuiltin_quiet (b : Builtin) (args : List Value) :
    Quiet (applyBuiltin b span args) := by
  unfold applyBuiltin
  split
  case h_1 | h_7 | h_8 | h_9 | h_10 | h_11 => exact quiet_pure
  case h_2 | h_3 | h_4 | h_5 => exact reduce_quiet _ _
  case h_6 =>
    refine valueMapM_quiet (fun q => ?_) _
    unfold squareRoot
    split
    · exact quiet_pure
    · exact quiet_fail
  case h_12 =>
    refine valueMapM_quiet (fun q => ?_) _
    unfold transcendental
    split
    · exact quiet_pure
    · exact quiet_fail
  case h_13 => exact quiet_fail

variable {env : Environment}

theorem unitQuantity_quiet (text : String) : Quiet (unitQuantity env span text) := by
  unfold unitQuantity
  split
  · exact quiet_fail
  · split
    · exact quiet_pure
    · exact quiet_fail

theorem named_quiet (locals : List Value) (name : Name) (binding : Binding) :
    Quiet (named env locals span name binding) := by
  have hentry : ∀ e, Quiet (named.valueOf span e) := by
    intro e
    unfold named.valueOf
    split
    · exact quiet_pure
    · exact quiet_fail
  unfold named
  split <;> split
  · exact quiet_pure
  · exact quiet_fail
  · exact hentry _
  · exact quiet_fail
  · exact hentry _
  · exact quiet_fail

theorem userFunction_quiet (name : Name) (id? : Option SymbolId) :
    Quiet (userFunction env span name id?) := by
  have hentry : ∀ e, Quiet (userFunction.functionOf span e) := by
    intro e
    unfold userFunction.functionOf
    split
    · exact quiet_pure
    · exact quiet_fail
  unfold userFunction
  split <;> split
  · exact hentry _
  · exact quiet_fail
  · exact hentry _
  · exact quiet_fail

/-! ## Steps under the two policies -/

section

variable (env) (policy : MismatchPolicy)

/-- Units and names mean the same under every policy. -/
theorem unitQuantity_under : unitQuantity (env.under policy) = unitQuantity env := by
  unfold unitQuantity
  rw [Environment.under_table]

theorem named_under : named (env.under policy) = named env := by
  unfold named
  rw [Environment.under_registry]

theorem userFunction_under : userFunction (env.under policy) = userFunction env := by
  unfold userFunction
  rw [Environment.under_registry]

end

/-- Only here the policy is looked at. -/
theorem addOrSub_agrees (env : Environment) (verb : String)
    (combine? : Quantity → Quantity → Option Quantity) (q r : Quantity) :
    Agrees (addOrSub (env.under .warn) span verb combine? q r)
      (addOrSub (env.under .error) span verb combine? q r) := by
  unfold addOrSub
  split
  · exact quiet_pure.agrees
  · exact agrees_mismatch span _ q.toBase

theorem combine_agrees (op : BinaryOp) (q r : Quantity) :
    Agrees (combine (env.under .warn) span op q r) (combine (env.under .error) span op q r) := by
  cases op with
  | add => exact addOrSub_agrees env _ _ q r
  | sub => exact addOrSub_agrees env _ _ q r
  | mul => exact (orOverflow_quiet _).agrees
  | div => exact (divide_quiet q r).agrees
  | exp => exact (raise_quiet q r).agrees

/-- A broadcast that warns goes on with the other elements, and one that fails does not. -/
theorem broadcast_agrees {f g : Quantity → Quantity → Eval Quantity}
    (h : ∀ q r, Agrees (f q r) (g q r)) (v w : Value) :
    Agrees (broadcast span f v w) (broadcast span g v w) := by
  cases v with
  | scalar q =>
    cases w with
    | scalar r => exact (h q r).bind fun _ => quiet_pure.agrees
    | array rs => exact (agrees_mapM (h q) rs).bind fun qs => (arrayOf_quiet qs).agrees
  | array qs =>
    cases w with
    | scalar r =>
      exact (agrees_mapM (fun q => h q r) qs).bind fun ps => (arrayOf_quiet ps).agrees
    | array rs =>
      change Agrees (if qs.length = rs.length then _ else _)
        (if qs.length = rs.length then _ else _)
      split
      · exact (agrees_mapM (fun (q, r) => h q r) _).bind fun ps => (arrayOf_quiet ps).agrees
      · exact quiet_fail.agrees

/-! ## Expressions -/

/-- Bodies of functions agree one call further down. -/
def BodiesAgree (env : Environment) (depth : Nat) : Prop :=
  ∀ depth', depth = depth' + 1 → ∀ e locals,
    Agrees (valueAt (env.under .warn) depth' e locals) (valueAt (env.under .error) depth' e locals)

variable {depth : Nat} {locals : List Value}

theorem enterFunction_agrees (hbodies : BodiesAgree env depth) (f : FunctionDefinition)
    (count : Nat) {lenientArgs strictArgs : Eval (List Value)}
    (hargs : Agrees lenientArgs strictArgs) :
    Agrees
      (do
        let body ← enterFunction (enterAt (env.under .warn) depth) span f count
        body (← lenientArgs))
      (do
        let body ← enterFunction (enterAt (env.under .error) depth) span f count
        body (← strictArgs)) := by
  unfold enterFunction
  split
  · exact quiet_fail.agrees
  · cases depth with
    | zero => exact quiet_fail.agrees
    | succ depth' => exact hargs.bind fun vs => (hbodies depth' rfl f.body vs).atCall span

mutual

theorem value_agrees (hbodies : BodiesAgree env depth) : ∀ e : Expr,
    Agrees (value (env.under .warn) (enterAt (env.under .warn) depth) locals e)
      (value (env.under .error) (enterAt (env.under .error) depth) locals e)
  | .const span _ x => by
    rw [value, value]
    exact (finite_quiet _).agrees
  | .var span name binding => by
    rw [value, value, named_under, named_under]
    exact (named_quiet locals name binding).agrees
  | .unit span text => by
    rw [value, value, unitQuantity_under, unitQuantity_under]
    apply (unitQuantity_quiet text).agrees.bind
    intro q
    exact quiet_pure.agrees
  | .array span elements => by
    rw [value, value]
    apply (scalars_agrees hbodies elements).bind
    intro qs
    split
    · exact quiet_pure.agrees
    · exact quiet_fail.agrees
  | .index span base position => by
    rw [value, value]
    apply (value_agrees hbodies base).bind
    intro b
    apply (value_agrees hbodies position).bind
    intro p
    exact (element_quiet b p).agrees
  | .signed span sign operand => by
    rw [value, value]
    apply (value_agrees hbodies operand).bind
    intro v
    cases sign with
    | positive => exact quiet_pure.agrees
    | negative => exact quiet_pure.agrees
  | .binary span op left right => by
    rw [value, value]
    apply (value_agrees hbodies left).bind
    intro l
    apply (value_agrees hbodies right).bind
    intro r
    apply (broadcast_agrees (fun q r => combine_agrees op q r) l r).bind
    intro v
    exact (finite_quiet v).agrees
  | .group _ inner => by
    rw [value, value]
    exact value_agrees hbodies inner
  | .call span name callee args => by
    have hargs := values_agrees hbodies args
    cases callee with
    | builtin b =>
      rw [value, value]
      split
      · apply hargs.bind
        intro vs
        exact (applyBuiltin_quiet b vs).agrees.bind fun v => (finite_quiet v).agrees
      · exact quiet_fail.agrees
    | user id =>
      rw [value, value, userFunction_under, userFunction_under]
      apply (userFunction_quiet name (some id)).agrees.bind
      intro f
      exact enterFunction_agrees hbodies f args.length hargs
    | unresolved =>
      rw [value, value, userFunction_under, userFunction_under]
      apply (userFunction_quiet name none).agrees.bind
      intro f
      exact enterFunction_agrees hbodies f args.length hargs

theorem values_agrees (hbodies : BodiesAgree env depth) : ∀ es : List Expr,
    Agrees (values (env.under .warn) (enterAt (env.under .warn) depth) locals es)
      (values (env.under .error) (enterAt (env.under .error) depth) locals es)
  | [] => by
    rw [values, values]
    exact quiet_pure.agrees
  | e :: es => by
    rw [values, values]
    apply (value_agrees hbodies e).bind
    intro v
    exact (values_agrees hbodies es).bind fun vs => quiet_pure.agrees

theorem scalars_agrees (hbodies : BodiesAgree env depth) : ∀ es : List Expr,
    Agrees (scalars (env.under .warn) (enterAt (env.under .warn) depth) locals es)
      (scalars (env.under .error) (enterAt (env.under .error) depth) locals es)
  | [] => by
    rw [scalars, scalars]
    exact quiet_pure.agrees
  | e :: es => by
    rw [scalars, scalars]
    apply (value_agrees hbodies e).bind
    intro v
    cases v with
    | scalar q => exact (scalars_agrees hbodies es).bind fun qs => quiet_pure.agrees
    | array qs => exact quiet_fail.agrees

end

/-- The induction is on how many calls may be nested; a body is entered with one call less. -/
theorem bodiesAgree (env : Environment) (depth : Nat) : BodiesAgree env depth := by
  induction depth with
  | zero => exact fun _ h => nomatch h
  | succ depth ih =>
    intro depth' hdepth e locals
    cases hdepth
    rw [valueAt_eq, valueAt_eq]
    exact value_agrees ih e

theorem valueAt_agrees (env : Environment) (depth : Nat) (e : Expr) (locals : List Value) :
    Agrees (valueAt (env.under .warn) depth e locals) (valueAt (env.under .error) depth e locals) :=
  bodiesAgree env (depth + 1) depth rfl e locals

end Evaluation

/-- The strict evaluation comes to a value exactly if the lenient one comes to the same without a
warning. It fails with the code of a mismatch whenever the lenient one has warned, whatever that
came to, and otherwise with the error of the lenient one. It does not warn itself. -/
theorem Expr.eval_policies (env : Environment) (e : Expr) :
    let lenient := (e.eval (env.under .warn)).result
    let strict := (e.eval (env.under .error)).result
    strict.2 = [] ∧ (∀ v, strict.1 = .ok v ↔ lenient = (.ok v, [])) ∧
      (lenient.2 ≠ [] → ∃ error, strict.1 = .error error ∧ error.code = .dimensionMismatch) ∧
      ∀ error, lenient = (.error error, []) → strict.1 = .error error := by
  intro lenient strict
  have hagrees := Evaluation.valueAt_agrees env env.settings.maxCallDepth e []
  have hsilent : lenient.2 = [] → strict = lenient := hagrees.silent
  have hwarned : lenient.2 ≠ [] → ∃ error, strict = (.error error, []) ∧
      error.code = .dimensionMismatch := hagrees.warned
  by_cases hnil : lenient.2 = []
  · have hsame := hsilent hnil
    have hlenient : lenient = (strict.1, []) := by rw [hsame, ← hnil]
    refine ⟨hsame ▸ hnil, fun v => ?_, fun hne => absurd hnil hne, fun error herror => ?_⟩
    · rw [hlenient]
      simp
    · rw [hsame, herror]
  · obtain ⟨error, hstrict, hcode⟩ := hwarned hnil
    rw [hstrict]
    refine ⟨rfl, fun v => ⟨nofun, fun hv => ?_⟩, fun _ => ⟨error, rfl, hcode⟩, fun e he => ?_⟩
    · exact absurd (congrArg Prod.snd hv) hnil
    · exact absurd (congrArg Prod.snd he) hnil

end Worksheet
