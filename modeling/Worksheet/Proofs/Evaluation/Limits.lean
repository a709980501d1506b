import Worksheet.Proofs.Evaluation.Visits
/-!
# The limit on nested calls

A lower limit only cuts off. Until a call goes too deep, the evaluations under two limits do the
same, warnings and their places included; and there the one under the lower limit fails.
-/

namespace Worksheet

/-- The environment under another limit on nested calls. -/
def Environment.nesting (env : Environment) (limit : Nat) : Environment :=
  { env with settings := { env.settings with maxCallDepth := limit } }

namespace Eval

/-- Whatever warnings there were, the shallow computation fails because a call goes too deep, or the
deep one does the same. -/
def CutsOff (shallow deep : Eval α) : Prop :=
  ∀ before, (∃ e after, shallow.run.run before = (.error e, after) ∧ e.code = .callDepthExceeded) ∨
    deep.run.run before = shallow.run.run before

theorem CutsOff.refl (c : Eval α) : CutsOff c c := fun _ => .inr rfl

theorem cutsOff_tooDeep (span : Span) (details : Option String) (deep : Eval α) :
    CutsOff (fail .callDepthExceeded span details) deep :=
  fun before => .inl ⟨⟨.callDepthExceeded, span, details⟩, before, rfl, rfl⟩

variable {shallow deep : Eval α} {f g : α → Eval β}

theorem CutsOff.bind (h : CutsOff shallow deep) (hf : ∀ a, CutsOff (f a) (g a)) :
    CutsOff (shallow >>= f) (deep >>= g) := by
  intro before
  rw [run_bind, run_bind]
  rcases h before with ⟨e, after, hrun, hcode⟩ | hsame
  · rw [hrun]
    exact .inl ⟨e, after, rfl, hcode⟩
  · rw [hsame]
    rcases shallow.run.run before with ⟨e | a, after⟩
    · exact .inr rfl
    · exact hf a after

/-- What is done with a value does not matter to the limit. -/
theorem CutsOff.andThen (h : CutsOff shallow deep) (f : α → Eval β) :
    CutsOff (shallow >>= f) (deep >>= f) :=
  h.bind fun a => .refl (f a)

/-- A call moves an error to another place, and keeps its code. -/
theorem CutsOff.atCall (h : CutsOff shallow deep) (span : Span) :
    CutsOff (Eval.atCall span shallow) (Eval.atCall span deep) := by
  intro before
  rw [run_atCall, run_atCall]
  rcases h before with ⟨e, after, hshallow, hcode⟩ | hsame
  · rw [hshallow]
    exact .inl ⟨{ e with span }, _, rfl, hcode⟩
  · rw [hsame]
    exact .inr rfl

end Eval

namespace Evaluation

open Eval

/-- The shallow way into bodies is closed, or what it enters is cut off at most. -/
inductive EntersLess : Enter → Enter → Prop where
  | closed (deep : Enter) : EntersLess none deep
  | entered {shallow deep : Expr → List Value → Eval Value}
      (h : ∀ e locals, CutsOff (shallow e locals) (deep e locals)) :
      EntersLess (some shallow) (some deep)

variable {env : Environment} {limit limit' : Nat} {shallow deep : Enter} {locals : List Value}

/-- The arguments of a call are evaluated after the limit is looked at. -/
theorem call_cutsOff (henter : EntersLess shallow deep) {span : Span} (f : FunctionDefinition)
    (count : Nat) {shallowArgs deepArgs : Eval (List Value)}
    (hargs : CutsOff shallowArgs deepArgs) :
    CutsOff
      (do
        let body ← enterFunction shallow span f count
        body (← shallowArgs))
      (do
        let body ← enterFunction deep span f count
        body (← deepArgs)) := by
  unfold enterFunction
  split
  · exact .refl _
  · cases henter with
    | closed => exact cutsOff_tooDeep span _ _
    | entered h => exact hargs.bind fun vs => (h f.body vs).atCall span

mutual

theorem value_cutsOff (henter : EntersLess shallow deep) : ∀ e : Expr,
    CutsOff (value (env.nesting limit) shallow locals e) (value (env.nesting limit') deep locals e)
  | .const .. | .var .. | .unit .. => by
    rw [value, value]
    exact .refl _
  | .array span elements => by
    rw [value, value]
    exact (scalars_cutsOff henter elements).andThen _
  | .index span base position => by
    rw [value, value]
    apply (value_cutsOff henter base).bind
    intro b
    exact (value_cutsOff henter position).andThen _
  | .signed span sign operand => by
    rw [value, value]
    exact (value_cutsOff henter operand).andThen _
  | .binary span op left right => by
    rw [value, value]
    apply (value_cutsOff henter left).bind
    intro l
    exact (value_cutsOff henter right).andThen _
  | .group _ inner => by
    rw [value, value]
    exact value_cutsOff henter inner
  | .call span name callee args => by
    have hargs := values_cutsOff henter args
    cases callee with
    | builtin b =>
      rw [value, value]
      split
      · exact hargs.andThen _
      · exact .refl _
    | user id =>
      rw [value, value]
      apply CutsOff.bind (.refl (userFunction env span name (some id)))
      intro f
      exact call_cutsOff henter f args.length hargs
    | unresolved =>
      rw [value, value]
      apply CutsOff.bind (.refl (userFunction env span name none))
      intro f
      exact call_cutsOff henter f args.length hargs

theorem values_cutsOff (henter : EntersLess shallow deep) : ∀ es : List Expr,
    CutsOff (values (env.nesting limit) shallow locals es)
      (values (env.nesting limit') deep locals es)
  | [] => by
    rw [values, values]
    exact .refl _
  | e :: es => by
    rw [values, values]
    apply (value_cutsOff henter e).bind
    intro v
    exact (values_cutsOff henter es).andThen _

theorem scalars_cutsOff (henter : EntersLess shallow deep) : ∀ es : List Expr,
    CutsOff (scalars (env.nesting limit) shallow locals es)
      (scalars (env.nesting limit') deep locals es)
  | [] => by
    rw [scalars, scalars]
    exact .refl _
  | e :: es => by
    rw [scalars, scalars]
    apply (value_cutsOff henter e).bind
    intro v
    cases v with
    | scalar q => exact (scalars_cutsOff henter es).andThen _
    | array qs => exact .refl _

end

/-- The induction is on the calls that may still be nested under the lower limit; each body is
entered with one less under both. -/
theorem valueAt_cutsOff {depth depth' : Nat} (h : depth ≤ depth') (e : Expr)
    (locals : List Value) :
    CutsOff (valueAt (env.nesting limit) depth e locals)
      (valueAt (env.nesting limit') depth' e locals) := by
  induction depth generalizing depth' e locals with
  | zero =>
    rw [valueAt_eq, valueAt_eq]
    exact value_cutsOff (.closed _) e
  | succ depth ih =>
    obtain ⟨less, rfl⟩ := Nat.exists_eq_add_of_le' h
    have hless : depth ≤ less + depth := Nat.le_add_left _ _
    rw [valueAt_eq, valueAt_eq]
    exact value_cutsOff (.entered fun e locals => ih hless e locals) e

end Evaluation

/-- Unless a call goes too deep, a higher limit makes no difference to the value, the error or the
warnings. -/
theorem Expr.eval_nesting (env : Environment) (e : Expr) {limit limit' : Nat}
    (h : limit ≤ limit')
    (hlimit : ∀ error, (e.eval (env.nesting limit)).result.1 = .error error →
      error.code ≠ .callDepthExceeded) :
    (e.eval (env.nesting limit')).result = (e.eval (env.nesting limit)).result := by
  have hcuts : Eval.CutsOff (e.eval (env.nesting limit)) (e.eval (env.nesting limit')) :=
    Evaluation.valueAt_cutsOff h e []
  rcases hcuts [] with ⟨error, after, hrun, hcode⟩ | hsame
  · exact absurd hcode (hlimit error (congrArg Prod.fst hrun))
  · exact hsame

/-- A function `f(x) = x + 1` under units of which one is a second. -/
def mixing : Environment where
  table := { entries := [("s", ⟨"s", "s", .unit "s", 1, 0⟩)] }
  registry := ({} : Registry).defineFunction "f" [⟨"x"⟩]
    (.binary ⟨0, 5⟩ .add (.var ⟨0, 1⟩ ⟨"x"⟩ (.parameter 0)) (.const ⟨4, 5⟩ "1" 1)) "x + 1"
  settings := {}

/-- Its value at a second, which comes with a warning. -/
def mixingCall : Expr := .call ⟨0, 12⟩ ⟨"f"⟩ .unresolved [.unit ⟨2, 11⟩ "s"]

theorem eval_nesting_mixing :
    (mixingCall.eval (mixing.nesting 1)).result.2.map Diagnostic.code = [.dimensionMismatch] ∧
    (mixingCall.eval (mixing.nesting 64)).result = (mixingCall.eval (mixing.nesting 1)).result := by
  have hvalue : (mixingCall.eval (mixing.nesting 1)).result.1.isOk := by decide +kernel
  refine ⟨by decide +kernel, mixingCall.eval_nesting mixing (by decide) fun error herror => ?_⟩
  rw [herror] at hvalue
  cases hvalue

end Worksheet
