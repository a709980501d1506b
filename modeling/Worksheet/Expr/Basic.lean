import Worksheet.Builtin
import Worksheet.Name
import Worksheet.Span
/-!
# Expressions

The tree of an equation. Every node keeps the span it was read from, and every name what it was
found to mean when the equation was read.
-/

namespace Worksheet

/-- The place of a name among those bound in a document. It is never written in a text. -/
structure SymbolId where
  index : Nat
deriving DecidableEq, Inhabited

def SymbolId.text (id : SymbolId) : String := "#" ++ toString id.index

inductive BinaryOp where
  | add | sub | exp | mul | div
deriving DecidableEq, Inhabited

inductive Sign where
  | positive | negative
deriving DecidableEq, Inhabited

/-- What a name that stands for a value refers to. -/
inductive Binding where
  | parameter (index : Nat)
  | symbol (id : SymbolId)
  /-- Looked up by name when the value is needed. -/
  | unresolved
deriving DecidableEq, Inhabited

inductive Callee where
  | builtin (function : Builtin)
  | user (id : SymbolId)
  /-- Looked up by name when the call is made. -/
  | unresolved
deriving DecidableEq, Inhabited

inductive Expr where
  | const (span : Span) (literal : String) (value : Float)
  | var (span : Span) (name : Name) (binding : Binding)
  /-- A product of units, as it is spelled. -/
  | unit (span : Span) (text : String)
  | call (span : Span) (name : Name) (callee : Callee) (args : List Expr)
  | array (span : Span) (elements : List Expr)
  | index (span : Span) (base position : Expr)
  | signed (span : Span) (sign : Sign) (operand : Expr)
  | binary (span : Span) (op : BinaryOp) (left right : Expr)
  | group (span : Span) (inner : Expr)
deriving Inhabited

namespace Expr

def span : Expr → Span
  | const span .. | var span .. | unit span .. | call span .. | array span .. | index span ..
  | signed span .. | binary span .. | group span .. => span

/-- A bracket after the expression is a subscript, not an array beside it. -/
def isIndexable : Expr → Bool
  | var .. | call .. | array .. | index .. | group .. => true
  | _ => false

end Expr

end Worksheet
