import Worksheet.Expr.Parse
import Worksheet.Number.Closeness
import Worksheet.UnitTable.Basic
/-!
# Unit expressions

From the text of a unit product, such as `mg/L/d` or `kg m^{-1}`, to the product.
-/

namespace Worksheet

/-- The whole number that a literal is close to. -/
def literalInteger (span : Span) (value : Float) : Except SourceError Int :=
  match Number.nearest? value with
  | none => .error ⟨.unitExponentOverflow, span⟩
  | some n =>
    if !Number.isNear value (Float.ofInt n) then .error ⟨.expectedInteger, span⟩
    else if maxExponent < n.natAbs then .error ⟨.unitExponentOverflow, span⟩
    else .ok n

/-- A power of whole numbers, unless it leaves the range of exponents. -/
def integerPower? (base : Int) (exponent : Nat) : Option Int :=
  if 1 < base.natAbs ∧ 31 < exponent then none
  else
    let size : Int := Nat.pow base.natAbs exponent
    exponent? (if base < 0 ∧ exponent % 2 = 1 then -size else size)

/-- A sign between whole numbers. Division drops the remainder, and by zero gives zero; a negative
exponent is no whole number. -/
def integerOp (op : BinaryOp) (span : Span) (m n : Int) : Except SourceError Int :=
  let result : Option Int :=
    match op with
    | .add => exponent? (m + n)
    | .sub => exponent? (m - n)
    | .mul => exponent? (m * n)
    | .div => if n = 0 then some 0 else exponent? (m.tdiv n)
    | .exp => integerPower? m n.toNat
  if op = .exp ∧ n < 0 then .error ⟨.expectedInteger, span⟩
  else
    match result with
    | some k => .ok k
    | none => .error ⟨.unitExponentOverflow, span⟩

namespace Expr

def integer : Expr → Except SourceError Int
  | const span _ value => literalInteger span value
  | var span .. | unit span .. | call span .. | array span .. | index span .. =>
    .error ⟨.expectedInteger, span⟩
  | group _ inner => inner.integer
  | signed span sign operand => do
    let n ← operand.integer
    match sign with
    | .positive => .ok n
    | .negative =>
      match exponent? (-n) with
      | some k => .ok k
      | none => .error ⟨.unitExponentOverflow, span⟩
  | binary span op left right => do
    let m ← left.integer
    let n ← right.integer
    integerOp op span m n

end Expr

namespace UnitTable

def orOverflow (span : Span) : Option UnitProduct → Except SourceError UnitProduct
  | some p => .ok p
  | none => .error ⟨.unitExponentOverflow, span⟩

def single (t : UnitTable) (span : Span) (name : String) : Except SourceError UnitProduct :=
  match t.lookup name with
  | some entry => .ok (.unit entry.symbol)
  | none => .error ⟨.unknownUnit, span⟩

/-- The product that a tree says. A one is the empty product, and may be divided by a product. -/
def product (t : UnitTable) : Expr → Except SourceError UnitProduct
  | .const span literal value =>
    match (Expr.const span literal value).integer with
    | .ok 1 => .ok .one
    | _ => .error ⟨.noConstInUnits, span⟩
  | .var span name _ =>
    if name.text = "dimensionless" ∨ name.text = "dmnl" then .ok .one
    else t.single span name.text
  | .unit span text => t.single span text
  | .group _ inner => t.product inner
  | .call span .. => .error ⟨.noAppInUnits, span⟩
  | .array span _ => .error ⟨.noIndexInUnits, span⟩
  | .index span .. => .error ⟨.noIndexInUnits, span⟩
  | .signed span .. => .error ⟨.noUnaryOpInUnits, span⟩
  | .binary span .exp left right => do
    let n ← right.integer
    orOverflow span ((← t.product left).pow? n)
  | .binary span .mul left right => do
    let p ← t.product left
    orOverflow span (p.mul? (← t.product right))
  | .binary span .div left right =>
    match left.integer with
    | .ok n =>
      if n = 1 then do orOverflow span (← t.product right).reciprocal?
      else .error ⟨.expectedIntegerOne, left.span⟩
    | .error _ => do
      let p ← t.product left
      orOverflow span (p.div? (← t.product right))
  | .binary span .add .. => .error ⟨.badBinaryOpInUnits, span⟩
  | .binary span .sub .. => .error ⟨.badBinaryOpInUnits, span⟩

/-- The product that a text says, in the symbols of the table. An empty text is the empty
product. -/
def parse (t : UnitTable) (text : String) : Except SourceError UnitProduct := do
  let plain := String.ofList (UnitText.plain text.toList)
  match ← Expr.parse (Scope.empty .units) plain with
  | some e => t.product e
  | none => .ok .one

end UnitTable

end Worksheet
