import Worksheet.Quantity
/-!
# Values

What an expression evaluates to: a quantity, or an array of quantities in the same units.
-/

namespace Worksheet

inductive Value where
  | scalar (q : Quantity)
  | array (elements : List Quantity)
deriving DecidableEq, Inhabited

namespace Value

def number (magnitude : Float) : Value := .scalar (.number magnitude)

/-- Converts quantities to the units of one, or gives the place of the first that cannot be. -/
def convertAll (target : Quantity) : Nat → List Quantity → Except Nat (List Quantity)
  | _, [] => .ok []
  | i, q :: qs =>
    match q.convertTo? target with
    | some converted => (convertAll target (i + 1) qs).map (converted :: ·)
    | none => .error i

/-- An array in the units of its first element, or the place of the first element that has another
dimension. Nothing is converted if all units agree. -/
def ofElements : List Quantity → Except Nat Value
  | [] => .error 0
  | first :: rest =>
    if rest.all fun q => q.units = first.units then .ok (.array (first :: rest))
    else (convertAll first 0 (first :: rest)).map .array

def isArray : Value → Bool
  | scalar _ => false
  | array _ => true

/-- The quantities in it; a scalar has one. -/
def quantities : Value → List Quantity
  | scalar q => [q]
  | array elements => elements

def size (v : Value) : Nat := v.quantities.length

/-- The quantity whose units an array is shown in. -/
def first? (v : Value) : Option Quantity := v.quantities.head?

def map (f : Quantity → Quantity) : Value → Value
  | scalar q => .scalar (f q)
  | array elements => .array (elements.map f)

/-- Applies a function that may fail to every quantity, from the first on. -/
def mapM [Monad m] (f : Quantity → m Quantity) : Value → m Value
  | scalar q => do return .scalar (← f q)
  | array elements => do return .array (← elements.mapM f)

def toBase (v : Value) : Value := v.map Quantity.toBase

end Value

end Worksheet
