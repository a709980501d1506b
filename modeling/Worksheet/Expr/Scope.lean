import Worksheet.Expr.Basic
import Worksheet.Token.Basic
/-!
# Scopes

What the names of an equation mean where it is read.
-/

namespace Worksheet

/-- What a bound name stands for. -/
inductive Resolved where
  | value (id : SymbolId)
  | function (id : SymbolId) (arity : Nat)
deriving DecidableEq, Inhabited

structure Scope where
  mode : Mode
  resolve : Name → Option Resolved := fun _ => none
  /-- The parameters, if the text is the body of a function. -/
  parameters : List Name := []
  /-- Names that stand for a unit when nothing else is bound to them. -/
  isUnitSymbol : Name → Bool := fun _ => false
  /-- Bare words that are read as a unit. -/
  isUnitWord : String → Bool := fun _ => false

namespace Scope

def empty (mode : Mode) : Scope := { mode }

def parameter? (scope : Scope) (name : Name) : Option Nat := scope.parameters.idxOf? name

end Scope

end Worksheet
