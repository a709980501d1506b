import Worksheet.Diagnostic
import Worksheet.Number.Constant
import Worksheet.Number.Shortest
import Worksheet.Registry.Basic
import Worksheet.Settings
import Worksheet.UnitTable.Expression
/-!
# Evaluation

The value of an expression, with its units. An error stops the evaluation. A sum of different
dimensions is a warning if the settings say so, and goes on with the left side in base units.
-/

namespace Worksheet

structure Environment where
  table : UnitTable
  registry : Registry
  settings : Settings
deriving Inhabited

/-- A computation that collects warnings, also if it fails. -/
abbrev Eval (α : Type) := ExceptT Error (StateM (List Diagnostic)) α

namespace Eval

def fail (code : ErrorCode) (span : Span) (details : Option String := none) : Eval α :=
  throw ⟨code, span, details⟩

/-- Adds a warning, unless there is one with its code at its span: a sum of arrays goes wrong in the
same way for every element. -/
def warn (code : ErrorCode) (span : Span) (details : String) : Eval Unit :=
  modify fun warnings =>
    if warnings.any fun w => w.code = code ∧ w.span = span then warnings
    else warnings ++ [.warning code span (code.name ++ ": " ++ details)]

/-- Reports what happens inside a call at the place of the call. -/
def atCall (span : Span) (body : Eval α) : Eval α := fun warnings =>
  let (result, after) := body.run.run warnings
  let earlier := after.take warnings.length
  let inside := after.drop warnings.length
  let moved := inside.map fun w => { w with span }
  (result.mapError fun e => { e with span }, earlier ++ moved)

def result (computation : Eval α) : Except Error α × List Diagnostic := computation.run.run []

end Eval

/-- Numbers in messages are written in full, with as few digits as read back. -/
def messageLayout : Number.Layout where
  tie := .away
  positional := none
  pointZero := false

def Value.finite (v : Value) (span : Span) : Eval Value :=
  if v.quantities.all fun q => q.magnitude.isFinite then pure v else Eval.fail .notFinite span

namespace Evaluation

def orOverflow (span : Span) : Option Quantity → Eval Quantity
  | some q => pure q
  | none => Eval.fail .unitExponentOverflow span

def addOrSub (env : Environment) (span : Span) (verb : String)
    (combine? : Quantity → Quantity → Option Quantity) (q r : Quantity) : Eval Quantity :=
  match combine? q r with
  | some result => pure result
  | none =>
    let details := "can't " ++ verb ++ " " ++ q.describe ++ " and " ++ r.describe
    match env.settings.mismatch with
    | .error => Eval.fail .dimensionMismatch span (some details)
    | .warn => do
      Eval.warn .dimensionMismatch span details
      pure q.toBase

def divide (span : Span) (q r : Quantity) : Eval Quantity :=
  if r.magnitude == 0 then Eval.fail .divisionByZero span else orOverflow span (q.div? r)

/-- Raises to a power. The exponent has no dimension, and all unit exponents have to stay whole. -/
def raise (span : Span) (q exponent : Quantity) : Eval Quantity :=
  if !exponent.isDimensionless then
    Eval.fail .dimensionedExponent span (some ("exponent has units of " ++ exponent.describe))
  else
    let power := exponent.toSi
    if q.isNumber then pure (q.withMagnitude (q.magnitude.pow power))
    else
      match q.pow? power with
      | some result => pure result
      | none =>
        let code : ErrorCode :=
          if Number.isWhole power then .unitExponentOverflow else .nonIntegerUnitExponent
        Eval.fail code span (some (q.describe ++ " to the power " ++ messageLayout.text power))

def combine (env : Environment) (span : Span) : BinaryOp → Quantity → Quantity → Eval Quantity
  | .add => addOrSub env span "add" Quantity.add?
  | .sub => addOrSub env span "subtract" Quantity.sub?
  | .mul => fun q r => orOverflow span (q.mul? r)
  | .div => divide span
  | .exp => raise span

def sameDimensionMessage : String :=
  "array elements must all have the same dimension"

def arrayOf (span : Span) (elements : List Quantity) : Eval Value :=
  match Value.ofElements elements with
  | .ok v => pure v
  | .error _ => Eval.fail .heterogeneousArray span (some sameDimensionMessage)

/-- Applies a function to the elements of two values. A scalar goes with every element of an array,
and two arrays have to be equally long. -/
def broadcast (span : Span) (f : Quantity → Quantity → Eval Quantity) : Value → Value → Eval Value
  | .scalar q, .scalar r => return .scalar (← f q r)
  | .array qs, .scalar r => do arrayOf span (← qs.mapM fun q => f q r)
  | .scalar q, .array rs => do arrayOf span (← rs.mapM fun r => f q r)
  | .array qs, .array rs => do
    if qs.length = rs.length then
      arrayOf span (← (qs.zip rs).mapM fun (q, r) => f q r)
    else
      Eval.fail .arrayLengthMismatch span
        (some (toString qs.length ++ " and " ++ toString rs.length ++ " elements"))

def element (span positionSpan : Span) (base position : Value) : Eval Value :=
  match base with
  | .scalar _ => Eval.fail .cantIndexScalar span
  | .array elements =>
    let whole? : Option Float :=
      match position with
      | .scalar q => if q.isNumber && Number.isWhole q.magnitude then some q.magnitude else none
      | .array _ => none
    match whole? with
    | none =>
      Eval.fail .nonIntegerIndex positionSpan (some "an index must be a whole number")
    | some i =>
      match (Number.nearest? i).bind fun n => if n < 0 then none else elements[n.toNat]? with
      | some q => pure (.scalar q)
      | none =>
        Eval.fail .indexOutOfRange positionSpan
          (some ("index " ++ messageLayout.text i ++ " of an array of " ++
            toString elements.length ++ " elements"))

def realFunction : Builtin → Float → Float
  | .sin => Float.sin
  | .cos => Float.cos
  | .tan => Float.tan
  | .sinh => Float.sinh
  | .cosh => Float.cosh
  | .tanh => Float.tanh
  | .arcsin => Float.asin
  | .arccos => Float.acos
  | .arctan => Float.atan
  | .exp => Float.exp
  | .ln => Float.log
  | _ => Float.log10

/-- The sum from the first number on. A sum of negative zeros stays negative. -/
def total (xs : List Float) : Float := xs.foldl (· + ·) (-0.0)

/-- The least number, the last of equal ones. What is not a number does not count. -/
def least (xs : List Float) : Float := xs.foldl (fun m x => if x ≤ m then x else m) (1 / 0)

/-- The greatest number, the last of equal ones. What is not a number does not count. -/
def greatest (xs : List Float) : Float := xs.foldl (fun m x => if m ≤ x then x else m) (-1 / 0)

def transcendental (b : Builtin) (span : Span) (q : Quantity) : Eval Quantity :=
  if q.isDimensionless then pure (.number (realFunction b q.toSi))
  else Eval.fail .dimensionedArgument span (some (b.name ++ " of " ++ q.describe))

def squareRoot (span : Span) (q : Quantity) : Eval Quantity :=
  match q.pow? 0.5 with
  | some root => pure root
  | none => Eval.fail .nonIntegerUnitExponent span (some ("square root of " ++ q.describe))

/-- Applies a function to the magnitudes of all arguments in the units of the first. -/
def reduce (span : Span) (f : List Float → Float) (args : List Value) : Eval Value :=
  match Value.ofElements (args.flatMap Value.quantities) with
  | .error _ =>
    Eval.fail .heterogeneousArray span (some "arguments must all have the same dimension")
  | .ok v =>
    match v.first? with
    | none => Eval.fail .badArity span
    | some first => pure (.scalar (first.withMagnitude (f (v.quantities.map Quantity.magnitude))))

def mapMagnitude (f : Float → Float) (v : Value) : Value :=
  v.map fun q => q.withMagnitude (f q.magnitude)

def applyBuiltin (b : Builtin) (span : Span) (args : List Value) : Eval Value :=
  match b, args with
  | .pi, _ => pure (.number Number.pi)
  | .min, args => reduce span least args
  | .max, args => reduce span greatest args
  | .sum, args => reduce span total args
  | .mean, args => reduce span (fun xs => total xs / Float.ofNat xs.length) args
  | .sqrt, v :: _ => v.mapM (squareRoot span)
  | .abs, v :: _ => pure (mapMagnitude Float.abs v)
  | .floor, v :: _ => pure (mapMagnitude Float.floor v)
  | .ceil, v :: _ => pure (mapMagnitude Float.ceil v)
  | .round, v :: _ => pure (mapMagnitude Float.round v)
  | .size, v :: _ => pure (.number (Float.ofNat v.size))
  | b, v :: _ => v.mapM (transcendental b span)
  | _, [] => Eval.fail .badArity span

/-- The quantity that a unit in an expression stands for. -/
def unitQuantity (env : Environment) (span : Span) (text : String) : Eval Quantity :=
  match env.table.parse text with
  | .error e => Eval.fail e.code span (some text)
  | .ok units =>
    match env.table.quantity? 1 units with
    | some q => pure q
    | none => Eval.fail .unitExponentOverflow span (some text)

def missing (id : SymbolId) (span : Span) : Eval α :=
  Eval.fail .unknownSymbolId span (some ("symbol " ++ id.text))

def named (env : Environment) (locals : List Value) (span : Span) (name : Name) :
    Binding → Eval Value
  | .parameter i =>
    match locals[i]? with
    | some v => pure v
    | none =>
      Eval.fail .unknownSymbolId span
        (some ("parameter " ++ toString i ++ " of " ++ name.text))
  | .symbol id =>
    match env.registry.get? id with
    | some entry => valueOf entry
    | none => missing id span
  | .unresolved =>
    match env.registry.lookup name with
    | some entry => valueOf entry
    | none => Eval.fail .undefinedVariable span (some name.text)
where
  valueOf (entry : Entry) : Eval Value :=
    match entry.binder with
    | .value v _ => pure v
    | .function _ => Eval.fail .notAValue span (some (entry.display ++ " is a function"))

/-- The function that a call of a name calls, if it is not a builtin. -/
def userFunction (env : Environment) (span : Span) (name : Name) (id? : Option SymbolId) :
    Eval FunctionDefinition :=
  match id? with
  | some id =>
    match env.registry.get? id with
    | some entry => functionOf entry
    | none => missing id span
  | none =>
    match env.registry.lookup name with
    | some entry => functionOf entry
    | none => Eval.fail .undefinedFunction span (some name.text)
where
  functionOf (entry : Entry) : Eval FunctionDefinition :=
    match entry.binder with
    | .function f => pure f
    | .value .. => Eval.fail .notAFunction span (some (entry.display ++ " is not a function"))

/-- How the body of a function is evaluated, unless calls are nested too deeply. -/
abbrev Enter := Option (Expr → List Value → Eval Value)

/-- Checks that a function can be called with so many arguments, and gives the way into its
body. -/
def enterFunction (enter : Enter) (span : Span) (f : FunctionDefinition) (count : Nat) :
    Eval (List Value → Eval Value) :=
  if count ≠ f.arity then
    Eval.fail .badArity span
      (some (f.name.text ++ " takes " ++ toString f.arity ++ " arguments, got " ++
        toString count))
  else
    match enter with
    | none => Eval.fail .callDepthExceeded span (some f.name.text)
    | some enter => pure fun args => Eval.atCall span (enter f.body args)

mutual

/-- The value of an expression whose calls are entered in a given way. -/
def value (env : Environment) (enter : Enter) (locals : List Value) : Expr → Eval Value
  | .const span _ x => (Value.number x).finite span
  | .var span name binding => named env locals span name binding
  | .unit span text => return .scalar (← unitQuantity env span text)
  | .array span elements => do
    let qs ← scalars env enter locals elements
    match Value.ofElements qs with
    | .ok v => pure v
    | .error i =>
      Eval.fail .heterogeneousArray ((elements[i]?.map Expr.span).getD span)
        (some sameDimensionMessage)
  | .index span base position => do
    let b ← value env enter locals base
    let p ← value env enter locals position
    element span position.span b p
  | .signed _ sign operand => do
    let v ← value env enter locals operand
    match sign with
    | .positive => pure v
    | .negative => pure (v.map Quantity.neg)
  | .binary span op left right => do
    let l ← value env enter locals left
    let r ← value env enter locals right
    let v ← broadcast span (combine env span op) l r
    v.finite span
  | .group _ inner => value env enter locals inner
  | .call span _ (.builtin b) args => do
    if b.arity.accepts args.length then
      let v ← applyBuiltin b span (← values env enter locals args)
      v.finite span
    else Eval.fail .badArity span (some (b.name ++ " takes " ++ b.arity.text))
  | .call span name (.user id) args => do
    let f ← userFunction env span name (some id)
    let body ← enterFunction enter span f args.length
    body (← values env enter locals args)
  | .call span name .unresolved args => do
    let f ← userFunction env span name none
    let body ← enterFunction enter span f args.length
    body (← values env enter locals args)

/-- The values of arguments, from the first on. -/
def values (env : Environment) (enter : Enter) (locals : List Value) :
    List Expr → Eval (List Value)
  | [] => pure []
  | e :: es => do
    let v ← value env enter locals e
    return v :: (← values env enter locals es)

/-- The values of the elements of an array, which are no arrays themselves. -/
def scalars (env : Environment) (enter : Enter) (locals : List Value) :
    List Expr → Eval (List Quantity)
  | [] => pure []
  | e :: es => do
    match ← value env enter locals e with
    | .scalar q => return q :: (← scalars env enter locals es)
    | .array _ => Eval.fail .heterogeneousArray e.span (some "arrays can't be nested")

end

/-- The value of an expression under which at most `depth` calls may be nested. -/
def valueAt (env : Environment) : Nat → Expr → List Value → Eval Value
  | 0, e, locals => value env none locals e
  | depth + 1, e, locals => value env (some (valueAt env depth)) locals e

end Evaluation

def Expr.eval (env : Environment) (e : Expr) : Eval Value :=
  Evaluation.valueAt env env.settings.maxCallDepth e []

end Worksheet
