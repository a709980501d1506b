import Worksheet.Proofs.Evaluation.Machine
/-!
# Evaluation terminates

The machine comes to the outcome of every expression, under whatever functions are bound. The
induction is on how many calls may still be opened, and on the expression; a body is no part of the
expression that calls it.
-/

namespace Worksheet

namespace Evaluation

namespace Machine

variable {env : Environment} {m : Machine}

/-! ## Computations one after the other -/

section

variable {α : Type} {c : Eval α} {f : α → Eval Value}

theorem perform_bind_ok {a : α} {warnings : List Diagnostic}
    (h : c.run.run m.warnings = (.ok a, warnings)) :
    m.perform (c >>= f) = (m.warned warnings).perform (f a) := by
  unfold Machine.perform
  rw [Eval.run_bind, h]
  rfl

theorem perform_bind_error {e : Error} {warnings : List Diagnostic}
    (h : c.run.run m.warnings = (.error e, warnings)) :
    m.perform (c >>= f) = { m with control := .done (.error e), warnings } := by
  unfold Machine.perform
  rw [Eval.run_bind, h]

/-- If the machine goes on after a computation as another one does, it comes to what both come to
together. -/
theorem reaches_after {next : α → Machine → Machine}
    (h : ∀ a warnings, Reaches env (next a (m.warned warnings)) ((m.warned warnings).perform (f a))) :
    Reaches env (m.after c next) (m.perform (c >>= f)) := by
  unfold Machine.after
  cases hrun : c.run.run m.warnings with
  | mk result warnings =>
    cases result with
    | ok a =>
      rw [perform_bind_ok hrun]
      exact h a warnings
    | error e =>
      rw [perform_bind_error hrun]
      exact .refl

/-- The machine comes to a value, and what waits for it goes on as another computation does. -/
theorem reaches_push {m₀ : Machine} {c : Eval Value} {f : Value → Eval Value} {w : Waiting}
    (hvalue : Reaches env m₀ ((m.push w).perform c))
    (h : ∀ v warnings,
      Reaches env ((m.warned warnings).resume env w v) ((m.warned warnings).perform (f v))) :
    Reaches env m₀ (m.perform (c >>= f)) := by
  refine hvalue.trans ?_
  cases hrun : c.run.run m.warnings with
  | mk result warnings =>
    have hpushed : (m.push w).perform c =
        ⟨.done result, .waiting w :: m.frames, m.depth, warnings⟩ := by
      change ({ m.push w with control := .done (c.run.run m.warnings).1,
                              warnings := (c.run.run m.warnings).2 } : Machine) = _
      rw [hrun]
      rfl
    rw [hpushed]
    cases result with
    | ok v =>
      rw [perform_bind_ok hrun]
      exact .head rfl (h v warnings)
    | error e =>
      rw [perform_bind_error hrun]
      exact .single rfl

end

/-! ## Expressions -/

/-- Wherever so many more calls may be opened, the machine comes to the values of expressions. -/
def Evaluates (env : Environment) (rest : Nat) : Prop :=
  ∀ m : Machine, m.depth + rest = env.settings.maxCallDepth → ∀ e locals,
    Reaches env (m.eval e locals) (m.perform (valueAt env rest e locals))

/-- Bodies are evaluated with one call less to open. -/
def BodiesEvaluate (env : Environment) (rest : Nat) : Prop :=
  ∀ rest', rest = rest' + 1 → Evaluates env rest'

variable {rest : Nat} {locals : List Value} {span : Span}

/-- A body is evaluated, and its call is closed. -/
theorem reaches_body (hbodies : BodiesEvaluate env (rest + 1))
    (hdepth : m.depth + (rest + 1) = env.settings.maxCallDepth) (f : FunctionDefinition)
    (args : List Value) :
    Reaches env (m.enterBody span f args)
      (m.perform (Eval.atCall span (valueAt env rest f.body args))) := by
  have hbody : Reaches env (m.enterBody span f args)
      ((m.enterBody span f args).perform (valueAt env rest f.body args)) := by
    refine hbodies rest rfl (m.enterBody span f args) ?_ f.body args
    change m.depth + 1 + rest = _
    omega
  exact hbody.trans (.single rfl)

/-- A call is refused as it is in evaluation, and else its arguments are evaluated first. -/
theorem reaches_call (hbodies : BodiesEvaluate env rest) (m : Machine)
    (hdepth : m.depth + rest = env.settings.maxCallDepth) {f : FunctionDefinition}
    {args : List Expr}
    (hargs : ∀ finish : List Value → Eval Value,
      (∀ m : Machine, m.depth + rest = env.settings.maxCallDepth → ∀ vs,
        Reaches env (m.enterBody span f vs) (m.perform (finish vs))) →
      Reaches env (m.nextArgument locals span (.function f) [] args)
        (m.perform (do finish (← values env (enterAt env rest) locals args)))) :
    Reaches env (m.call env locals span args f)
      (m.perform (do
        let body ← enterFunction (enterAt env rest) span f args.length
        body (← values env (enterAt env rest) locals args))) := by
  unfold Machine.call enterFunction
  by_cases harity : args.length ≠ f.arity
  · rw [if_pos harity, if_pos harity]
    exact .refl
  · rw [if_neg harity, if_neg harity]
    cases rest with
    | zero =>
      rw [if_pos (by omega)]
      exact .refl
    | succ rest =>
      rw [if_neg (by omega)]
      exact hargs _ fun m hdepth vs => reaches_body hbodies hdepth f vs

mutual

theorem reaches_value (hbodies : BodiesEvaluate env rest) (m : Machine)
    (hdepth : m.depth + rest = env.settings.maxCallDepth) : ∀ e : Expr,
    Reaches env (m.eval e locals) (m.perform (value env (enterAt env rest) locals e))
  | .const .. | .var .. | .unit .. => .single rfl
  | .array span elements => by
    rw [value]
    exact .head rfl (reaches_scalars hbodies m hdepth span elements elements [])
  | .index span base position => by
    rw [value]
    have hbase := reaches_value hbodies (m.push (.base locals span position)) hdepth base
    refine .head rfl (reaches_push hbase fun b warnings => ?_)
    have hposition := reaches_value hbodies
      ((m.warned warnings).push (.position span position.span b)) hdepth position
    exact reaches_push hposition fun p warnings => .refl
  | .signed span sign operand => by
    rw [value]
    have hoperand := reaches_value hbodies (m.push (.operand sign)) hdepth operand
    refine .head rfl (reaches_push hoperand fun v warnings => ?_)
    cases sign <;> exact .refl
  | .binary span op left right => by
    rw [value]
    have hleft := reaches_value hbodies (m.push (.left locals span op right)) hdepth left
    refine .head rfl (reaches_push hleft fun l warnings => ?_)
    have hright := reaches_value hbodies ((m.warned warnings).push (.right span op l)) hdepth right
    exact reaches_push hright fun r warnings => .refl
  | .group _ inner => by
    rw [value]
    exact .head rfl (reaches_value hbodies m hdepth inner)
  | .call span name callee args => by
    have hcall : ∀ id?, Reaches env
        (m.after (userFunction env span name id?) fun f m => m.call env locals span args f)
        (m.perform (do
          let f ← userFunction env span name id?
          let body ← enterFunction (enterAt env rest) span f args.length
          body (← values env (enterAt env rest) locals args))) := by
      intro id?
      refine reaches_after fun f warnings => reaches_call hbodies (m.warned warnings) hdepth ?_
      intro finish hfinish
      exact reaches_values hbodies (m.warned warnings) hdepth span (.function f) hfinish args []
    cases callee with
    | builtin b =>
      rw [value]
      by_cases haccepts : b.arity.accepts args.length
      · have hargs := reaches_values hbodies m hdepth span (.builtin b) (fun _ _ _ => .refl) args []
        rw [if_pos haccepts]
        refine .head rfl ?_
        rw [Machine.enter, if_pos haccepts]
        exact hargs
      · rw [if_neg haccepts]
        refine .head rfl ?_
        rw [Machine.enter, if_neg haccepts]
        exact .refl
    | user id =>
      rw [value]
      exact .head rfl (hcall (some id))
    | unresolved =>
      rw [value]
      exact .head rfl (hcall none)

/-- Arguments are evaluated from the first on, and then what they are evaluated for. -/
theorem reaches_values (hbodies : BodiesEvaluate env rest) (m : Machine)
    (hdepth : m.depth + rest = env.settings.maxCallDepth) (span : Span) (callable : Callable)
    {finish : List Value → Eval Value}
    (hfinish : ∀ m : Machine, m.depth + rest = env.settings.maxCallDepth → ∀ vs,
      Reaches env (m.nextArgument locals span callable vs []) (m.perform (finish vs))) :
    ∀ (es : List Expr) (before : List Value),
    Reaches env (m.nextArgument locals span callable before es)
      (m.perform (do
        let vs ← values env (enterAt env rest) locals es
        finish (before ++ vs)))
  | [], before => by
    rw [values, pure_bind, List.append_nil]
    exact hfinish m hdepth before
  | e :: es, before => by
    have he := reaches_value hbodies (m.push (.argument locals span callable before es)) hdepth e
    rw [values, bind_assoc]
    refine reaches_push he fun v warnings => ?_
    have hes := reaches_values hbodies (m.warned warnings) hdepth span callable hfinish es
      (before ++ [v])
    simp only [List.append_assoc, List.cons_append, List.nil_append] at hes
    simp only [bind_assoc, pure_bind]
    exact hes

/-- Elements are evaluated from the first on, and then put together. -/
theorem reaches_scalars (hbodies : BodiesEvaluate env rest) (m : Machine)
    (hdepth : m.depth + rest = env.settings.maxCallDepth) (span : Span) (elements : List Expr) :
    ∀ (es : List Expr) (before : List Quantity),
    Reaches env (m.nextElement locals span elements before es)
      (m.perform (do
        let qs ← scalars env (enterAt env rest) locals es
        literal span elements (before ++ qs)))
  | [], before => by
    rw [scalars, pure_bind, List.append_nil]
    exact .refl
  | e :: es, before => by
    have he := reaches_value hbodies (m.push (.element locals span elements before e.span es))
      hdepth e
    rw [scalars, bind_assoc]
    refine reaches_push he fun v warnings => ?_
    cases v with
    | scalar q =>
      have hes := reaches_scalars hbodies (m.warned warnings) hdepth span elements es
        (before ++ [q])
      simp only [List.append_assoc, List.cons_append, List.nil_append] at hes
      simp only [bind_assoc, pure_bind]
      exact hes
    | array qs => exact .refl

end

/-- The induction is on how many calls may still be opened. -/
theorem evaluates (env : Environment) (rest : Nat) : Evaluates env rest := by
  have hbodies : ∀ rest, BodiesEvaluate env rest := by
    intro rest
    induction rest with
    | zero => exact fun _ h => nomatch h
    | succ rest ih =>
      intro rest' hrest m hdepth e locals
      cases hrest
      rw [valueAt_eq]
      exact reaches_value ih m hdepth e
  exact hbodies (rest + 1) rest rfl

/-! ## Runs -/

/-- The evaluation of an expression begins. -/
def Begins (m : Machine) : Prop := ∃ e locals, m.control = .eval e locals

/-- The evaluation of an expression has come to a value or to an error. -/
def Returns (m : Machine) : Prop := ∃ outcome, m.control = .done outcome

theorem reaches_result (env : Environment) (e : Expr) :
    Reaches env (start e) ⟨.done (e.eval env).result.1, [], 0, (e.eval env).result.2⟩ :=
  evaluates env env.settings.maxCallDepth (start e) (Nat.zero_add _) e []

/-- Whatever is begun within the limit returns to the same stack. -/
theorem Begins.returns (h : m.Begins) (hnested : m.Nested env.settings.maxCallDepth) :
    ∃ m', Reaches env m m' ∧ m'.Returns ∧ m'.frames = m.frames := by
  obtain ⟨e, locals, hcontrol⟩ := h
  obtain ⟨rest, hrest⟩ := Nat.exists_eq_add_of_le hnested.depth_le
  have hreaches := evaluates env rest m hrest.symm e locals
  have hsame : m.eval e locals = m := by
    unfold Machine.eval
    rw [← hcontrol]
  rw [hsame] at hreaches
  exact ⟨_, hreaches, ⟨_, rfl⟩, rfl⟩

end Machine

end Evaluation

open Evaluation

/-- Evaluation ends, and the machine ends with its outcome. All along, the depth is the number of
open calls and within the limit; every evaluation that is begun returns to its stack, and whenever
the stack is the same the depth is. -/
theorem Expr.eval_terminates (env : Environment) (e : Expr) :
    Acc (fun next m => Machine.step env m = some next) (.start e) ∧
    Machine.Reaches env (.start e) ⟨.done (e.eval env).result.1, [], 0, (e.eval env).result.2⟩ ∧
    ∀ m, Machine.Reaches env (.start e) m →
      m.depth = openCalls m.frames ∧ m.depth ≤ env.settings.maxCallDepth ∧
      (m.Begins → ∃ m', Machine.Reaches env m m' ∧ m'.Returns ∧ m'.frames = m.frames) ∧
      ∀ m', Machine.Reaches env m m' → m'.frames = m.frames → m'.depth = m.depth := by
  have hresult := Machine.reaches_result env e
  refine ⟨hresult.acc rfl, hresult, fun m hm => ?_⟩
  have hnested := (Machine.start_nested env.settings.maxCallDepth e).reaches hm
  refine ⟨hnested.depth, hnested.depth_le, fun h => h.returns hnested, fun m' hm' hframes => ?_⟩
  rw [(hnested.reaches hm').depth, hframes, ← hnested.depth]

end Worksheet
