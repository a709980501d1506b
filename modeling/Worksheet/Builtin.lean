/-!
# Builtin functions

The functions and the constant that every expression may use.
-/

namespace Worksheet

inductive Builtin where
  | sin | cos | tan | sinh | cosh | tanh | arcsin | arccos | arctan | exp | ln | log
  | sqrt | abs | floor | ceil | round
  | min | max | sum | mean | size
  | pi
deriving DecidableEq, Inhabited

inductive Arity where
  | exactly (count : Nat)
  | atLeast (count : Nat)
deriving DecidableEq, Inhabited

namespace Arity

def accepts : Arity → Nat → Bool
  | exactly count, n => n = count
  | atLeast count, n => count ≤ n

def arguments (count : Nat) : String :=
  if count = 1 then "1 argument" else toString count ++ " arguments"

def text : Arity → String
  | exactly count => arguments count
  | atLeast count => "at least " ++ arguments count

end Arity

namespace Builtin

def name : Builtin → String
  | sin => "sin"
  | cos => "cos"
  | tan => "tan"
  | sinh => "sinh"
  | cosh => "cosh"
  | tanh => "tanh"
  | arcsin => "arcsin"
  | arccos => "arccos"
  | arctan => "arctan"
  | exp => "exp"
  | ln => "ln"
  | log => "log"
  | sqrt => "sqrt"
  | abs => "abs"
  | floor => "floor"
  | ceil => "ceil"
  | round => "round"
  | min => "min"
  | max => "max"
  | sum => "sum"
  | mean => "mean"
  | size => "size"
  | pi => "pi"

def all : List Builtin :=
  [sin, cos, tan, sinh, cosh, tanh, arcsin, arccos, arctan, exp, ln, log, sqrt, abs, floor, ceil,
    round, min, max, sum, mean, size, pi]

def aliases : List (String × Builtin) := [("asin", arcsin), ("acos", arccos), ("atan", arctan)]

def ofPlainName? (name : String) : Option Builtin :=
  (all.find? fun b => b.name = name).or (aliases.lookup name)

/-- The builtin that a name stands for; a backslash before it makes no difference. -/
def ofName? (name : String) : Option Builtin :=
  match name.toList with
  | '\\' :: plain => ofPlainName? (String.ofList plain)
  | _ => ofPlainName? name

def arity : Builtin → Arity
  | pi => .exactly 0
  | min | max | sum | mean => .atLeast 1
  | _ => .exactly 1

def isConstant (b : Builtin) : Bool := b.arity = .exactly 0

/-- Takes a dimensionless argument to a dimensionless result. -/
def isTranscendental : Builtin → Bool
  | sin | cos | tan | sinh | cosh | tanh | arcsin | arccos | arctan | exp | ln | log => true
  | _ => false

end Builtin

end Worksheet
