import Worksheet.Proofs.Evaluation.Visits
/-!
# Evaluation as a machine

Evaluation in steps that do not call themselves: what waits for a value is kept on a stack, the
nesting of calls is counted up and down, and warnings are collected as they come. The calls that are
open never outnumber the limit.
-/

namespace Worksheet

namespace Evaluation

/-- What arguments are evaluated for. -/
inductive Callable where
  | builtin (b : Builtin)
  | function (f : FunctionDefinition)

/-- A place in an expression that waits for the value of the next one. -/
inductive Waiting where
  | base (locals : List Value) (span : Span) (position : Expr)
  | position (span positionSpan : Span) (base : Value)
  | operand (sign : Sign)
  | left (locals : List Value) (span : Span) (op : BinaryOp) (right : Expr)
  | right (span : Span) (op : BinaryOp) (left : Value)
  /-- One of the elements of an array, between those before and after it. -/
  | element (locals : List Value) (span : Span) (elements : List Expr) (before : List Quantity)
      (elementSpan : Span) (after : List Expr)
  | argument (locals : List Value) (span : Span) (callable : Callable) (before : List Value)
      (after : List Expr)

inductive Frame where
  | waiting (w : Waiting)
  /-- The body of a function that has been called at a span, with so many warnings before. -/
  | body (span : Span) (warnings : Nat)

def Callable.IsFunction : Callable → Prop
  | .builtin _ => False
  | .function _ => True

/-- Arguments are evaluated here for a call that is yet to be opened. -/
def Waiting.Calls : Waiting → Prop
  | .argument _ _ callable _ _ => callable.IsFunction
  | _ => False

/-- How many calls are open on a stack. -/
def openCalls : List Frame → Nat
  | [] => 0
  | .body .. :: frames => openCalls frames + 1
  | .waiting _ :: frames => openCalls frames

/-- Wherever a function is called on a stack, one more call may be open. -/
def HasRoom (limit : Nat) : List Frame → Prop
  | [] => True
  | .body .. :: frames => openCalls frames < limit ∧ HasRoom limit frames
  | .waiting w :: frames => (w.Calls → openCalls frames < limit) ∧ HasRoom limit frames

theorem openCalls_le {limit : Nat} {frames : List Frame} (h : HasRoom limit frames) :
    openCalls frames ≤ limit := by
  induction frames with
  | nil => exact Nat.zero_le limit
  | cons frame frames ih =>
    cases frame with
    | waiting w => exact ih h.2
    | body span count => exact h.1

/-- An expression is about to be evaluated, or has been. -/
inductive Control where
  | eval (e : Expr) (locals : List Value)
  | done (outcome : Except Error Value)

structure Machine where
  control : Control
  frames : List Frame
  /-- How many calls are open. -/
  depth : Nat
  warnings : List Diagnostic

/-- The elements of an array together. -/
def literal (span : Span) (elements : List Expr) (qs : List Quantity) : Eval Value :=
  match Value.ofElements qs with
  | .ok v => pure v
  | .error i =>
    Eval.fail .heterogeneousArray ((elements[i]?.map Expr.span).getD span) (some sameDimensionMessage)

/-- The value with a sign before it. -/
def applySign (v : Value) : Sign → Eval Value
  | .positive => pure v
  | .negative => pure (v.map Quantity.neg)

namespace Machine

def start (e : Expr) : Machine := ⟨.eval e [], [], 0, []⟩

def eval (m : Machine) (e : Expr) (locals : List Value) : Machine :=
  { m with control := .eval e locals }

def push (m : Machine) (w : Waiting) : Machine := { m with frames := .waiting w :: m.frames }

def warned (m : Machine) (warnings : List Diagnostic) : Machine := { m with warnings }

/-- The machine after a computation that comes to the value it was asked for. -/
def perform (m : Machine) (c : Eval Value) : Machine :=
  { m with control := .done (c.run.run m.warnings).1, warnings := (c.run.run m.warnings).2 }

/-- The machine goes on after a computation, unless that fails. -/
def after (m : Machine) (c : Eval α) (next : α → Machine → Machine) : Machine :=
  match c.run.run m.warnings with
  | (.ok a, warnings) => next a (m.warned warnings)
  | (.error e, warnings) => { m with control := .done (.error e), warnings }

def nextElement (m : Machine) (locals : List Value) (span : Span) (elements : List Expr)
    (before : List Quantity) : List Expr → Machine
  | [] => m.perform (literal span elements before)
  | e :: rest => (m.push (.element locals span elements before e.span rest)).eval e locals

/-- The body of a function is evaluated with the values of the arguments alone. -/
def enterBody (m : Machine) (span : Span) (f : FunctionDefinition) (args : List Value) : Machine where
  control := .eval f.body args
  frames := .body span m.warnings.length :: m.frames
  depth := m.depth + 1
  warnings := m.warnings

def nextArgument (m : Machine) (locals : List Value) (span : Span) (callable : Callable)
    (before : List Value) : List Expr → Machine
  | [] =>
    match callable with
    | .builtin b => m.perform (do (← applyBuiltin b span before).finite span)
    | .function f => m.enterBody span f before
  | e :: rest => (m.push (.argument locals span callable before rest)).eval e locals

variable (env : Environment)

/-- A call of a function, which is refused before its arguments are evaluated. -/
def call (m : Machine) (locals : List Value) (span : Span) (args : List Expr)
    (f : FunctionDefinition) : Machine :=
  if args.length ≠ f.arity then
    m.perform (Eval.fail .badArity span
      (some (f.name.text ++ " takes " ++ toString f.arity ++ " arguments, got " ++
        toString args.length)))
  else if env.settings.maxCallDepth ≤ m.depth then
    m.perform (Eval.fail .callDepthExceeded span (some f.name.text))
  else m.nextArgument locals span (.function f) [] args

/-- The first step into an expression. -/
def enter (m : Machine) (locals : List Value) : Expr → Machine
  | .const span _ x => m.perform ((Value.number x).finite span)
  | .var span name binding => m.perform (named env locals span name binding)
  | .unit span text => m.perform (return .scalar (← unitQuantity env span text))
  | .array span elements => m.nextElement locals span elements [] elements
  | .index span base position => (m.push (.base locals span position)).eval base locals
  | .signed _ sign operand => (m.push (.operand sign)).eval operand locals
  | .binary span op left right => (m.push (.left locals span op right)).eval left locals
  | .group _ inner => m.eval inner locals
  | .call span _ (.builtin b) args =>
    if b.arity.accepts args.length then m.nextArgument locals span (.builtin b) [] args
    else m.perform (Eval.fail .badArity span (some (b.name ++ " takes " ++ b.arity.text)))
  | .call span name (.user id) args =>
    m.after (userFunction env span name (some id)) fun f m => m.call env locals span args f
  | .call span name .unresolved args =>
    m.after (userFunction env span name none) fun f m => m.call env locals span args f

/-- What waits for a value goes on with it. -/
def resume (m : Machine) : Waiting → Value → Machine
  | .base locals span position, v => (m.push (.position span position.span v)).eval position locals
  | .position span positionSpan base, v => m.perform (element span positionSpan base v)
  | .operand sign, v => m.perform (applySign v sign)
  | .left locals span op right, v => (m.push (.right span op v)).eval right locals
  | .right span op left, v =>
    m.perform (do (← broadcast span (combine env span op) left v).finite span)
  | .element locals span elements before elementSpan rest, v =>
    match v with
    | .scalar q => m.nextElement locals span elements (before ++ [q]) rest
    | .array _ =>
      m.perform (Eval.fail .heterogeneousArray elementSpan (some "arrays can't be nested"))
  | .argument locals span callable before rest, v =>
    m.nextArgument locals span callable (before ++ [v]) rest

/-- A call is closed whether its body has a value or not. What was reported in the body is reported
at the call. -/
def leaveBody (m : Machine) (span : Span) (count : Nat) (outcome : Except Error Value) : Machine where
  control := .done (outcome.mapError fun e => { e with span })
  frames := m.frames
  depth := m.depth - 1
  warnings := m.warnings.take count ++ (m.warnings.drop count).map fun w => { w with span }

/-- One step. Nothing that waits for a value goes on after an error. -/
def step (m : Machine) : Option Machine :=
  match m.control, m.frames with
  | .eval e locals, _ => some (m.enter env locals e)
  | .done _, [] => none
  | .done outcome, .body span count :: frames =>
    some ({ m with frames }.leaveBody span count outcome)
  | .done (.ok v), .waiting w :: frames => some ({ m with frames }.resume env w v)
  | .done (.error e), .waiting _ :: frames => some { m with frames, control := .done (.error e) }

/-- The machine comes from one state to another. -/
def Reaches : Machine → Machine → Prop := Relation.ReflTransGen fun m m' => m.step env = some m'

variable {env} {m m' : Machine}

theorem Reaches.single (h : m.step env = some m') : Reaches env m m' := Relation.ReflTransGen.single h

theorem Reaches.trans {m'' : Machine} (h : Reaches env m m') (h' : Reaches env m' m'') :
    Reaches env m m'' := Relation.ReflTransGen.trans h h'

/-- No run goes on for ever from where one halts. -/
theorem Reaches.acc (h : Reaches env m m') (hhalts : m'.step env = none) :
    Acc (fun next m => m.step env = some next) m := by
  induction h using Relation.ReflTransGen.head_induction_on with
  | refl =>
    refine .intro _ fun next hnext => ?_
    rw [hhalts] at hnext
    cases hnext
  | head hfirst _ ih =>
    refine .intro _ fun next hnext => ?_
    obtain rfl := Option.some.inj (hfirst.symm.trans hnext)
    exact ih

/-! ## Open calls -/

/-- The depth is that of the stack, and there is room for all calls. -/
structure Nested (limit : Nat) (m : Machine) : Prop where
  depth : m.depth = openCalls m.frames
  room : HasRoom limit m.frames

variable {limit : Nat} {locals : List Value} {span : Span}

theorem Nested.depth_le (h : m.Nested limit) : m.depth ≤ limit :=
  h.depth ▸ openCalls_le h.room

theorem start_nested (limit : Nat) (e : Expr) : (start e).Nested limit := ⟨rfl, trivial⟩

theorem Nested.perform (h : m.Nested limit) (c : Eval Value) : (m.perform c).Nested limit :=
  ⟨h.depth, h.room⟩

theorem Nested.eval (h : m.Nested limit) (e : Expr) (locals : List Value) :
    (m.eval e locals).Nested limit := ⟨h.depth, h.room⟩

/-- Something waits for the value of the next expression. -/
theorem Nested.push (h : m.Nested limit) {w : Waiting} (hw : w.Calls → m.depth < limit) (e : Expr)
    (locals : List Value) : ((m.push w).eval e locals).Nested limit := by
  refine ⟨h.depth, fun hcalls => ?_, h.room⟩
  rw [← h.depth]
  exact hw hcalls

theorem Nested.enterBody (h : m.Nested limit) (hroom : m.depth < limit) (span : Span)
    (f : FunctionDefinition) (args : List Value) : (m.enterBody span f args).Nested limit := by
  refine ⟨congrArg (· + 1) h.depth, ?_, h.room⟩
  rw [← h.depth]
  exact hroom

theorem Nested.after (h : m.Nested limit) (c : Eval α) {next : α → Machine → Machine}
    (hnext : ∀ a warnings, (next a (m.warned warnings)).Nested limit) :
    (m.after c next).Nested limit := by
  unfold Machine.after
  split
  · exact hnext _ _
  · exact ⟨h.depth, h.room⟩

theorem Nested.nextElement (h : m.Nested limit) (elements : List Expr) (before : List Quantity)
    (rest : List Expr) : (m.nextElement locals span elements before rest).Nested limit := by
  cases rest with
  | nil => exact h.perform _
  | cons e rest => exact h.push False.elim e locals

theorem Nested.nextArgument (h : m.Nested limit) {callable : Callable}
    (hroom : callable.IsFunction → m.depth < limit) (before : List Value) (rest : List Expr) :
    (m.nextArgument locals span callable before rest).Nested limit := by
  cases rest with
  | nil =>
    cases callable with
    | builtin b => exact h.perform _
    | function f => exact h.enterBody (hroom trivial) span f before
  | cons e rest =>
    refine h.push ?_ e locals
    exact hroom

/-- The arguments of a function are only looked at while there is room for its call. -/
theorem Nested.call (h : m.Nested env.settings.maxCallDepth) (args : List Expr)
    (f : FunctionDefinition) :
    (m.call env locals span args f).Nested env.settings.maxCallDepth := by
  unfold Machine.call
  split
  · exact h.perform _
  · split
    · exact h.perform _
    · rename_i hroom
      exact h.nextArgument (fun _ => Nat.lt_of_not_le hroom) [] args

theorem Nested.enter (h : m.Nested env.settings.maxCallDepth) (e : Expr) :
    (m.enter env locals e).Nested env.settings.maxCallDepth := by
  cases e with
  | const | var | unit => exact h.perform _
  | array span elements => exact h.nextElement elements [] elements
  | index span base position => exact h.push False.elim base locals
  | signed span sign operand => exact h.push False.elim operand locals
  | binary span op left right => exact h.push False.elim left locals
  | group span inner => exact h.eval inner locals
  | call span name callee args =>
    cases callee with
    | builtin b =>
      rw [Machine.enter]
      split
      · exact h.nextArgument False.elim [] args
      · exact h.perform _
    | user | unresolved =>
      rw [Machine.enter]
      refine h.after _ fun f warnings => ?_
      have hnext : (m.warned warnings).Nested env.settings.maxCallDepth := ⟨h.depth, h.room⟩
      exact hnext.call args f

theorem Nested.resume (h : m.Nested limit) {w : Waiting} (hw : w.Calls → m.depth < limit)
    (v : Value) : (m.resume env w v).Nested limit := by
  cases w with
  | base locals span position => exact h.push False.elim position locals
  | left locals span op right => exact h.push False.elim right locals
  | position | operand | right => exact h.perform _
  | element locals span elements before elementSpan rest =>
    cases v with
    | scalar q => exact h.nextElement elements _ rest
    | array qs => exact h.perform _
  | argument locals span callable before rest => exact h.nextArgument hw _ rest

/-- A step opens or closes at most one call, and counts it. -/
theorem Nested.step (h : m.Nested env.settings.maxCallDepth) (hstep : m.step env = some m') :
    m'.Nested env.settings.maxCallDepth := by
  obtain ⟨control, frames, depth, warnings⟩ := m
  cases control with
  | eval e locals =>
    cases hstep
    exact h.enter e
  | done outcome =>
    cases frames with
    | nil => cases outcome <;> cases hstep
    | cons frame frames =>
      obtain ⟨hdepth, hroom⟩ := h
      cases frame with
      | body span count =>
        have hopen : depth - 1 = openCalls frames := by
          change depth = openCalls frames + 1 at hdepth
          omega
        cases outcome <;> cases hstep <;> exact ⟨hopen, hroom.2⟩
      | waiting w =>
        have hrest : Nested env.settings.maxCallDepth ⟨.done outcome, frames, depth, warnings⟩ :=
          ⟨hdepth, hroom.2⟩
        cases outcome with
        | error e =>
          cases hstep
          exact hrest
        | ok v =>
          cases hstep
          refine hrest.resume (fun hcalls => ?_) v
          have hlt : openCalls frames < env.settings.maxCallDepth := hroom.1 hcalls
          exact lt_of_eq_of_lt hdepth hlt

/-- All along a run the depth is that of the stack and never exceeds the limit. -/
theorem Nested.reaches (h : m.Nested env.settings.maxCallDepth) (hreaches : Reaches env m m') :
    m'.Nested env.settings.maxCallDepth := by
  induction hreaches with
  | refl => exact h
  | tail _ hstep ih => exact ih.step hstep

end Machine

end Evaluation

end Worksheet
