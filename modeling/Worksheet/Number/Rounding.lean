import Worksheet.Number.Binary
/-!
# Rounding

Rounding a quotient to a whole number, and a float to the whole number next to it.
-/

namespace Worksheet.Number

/-- Where the middle between two neighbours goes. -/
inductive Tie where
  | toEven
  | away
deriving DecidableEq, Inhabited

def roundDiv (tie : Tie) (num den : Nat) : Nat :=
  let quotient := num / den
  let twice := 2 * (num % den)
  if twice < den then quotient
  else if den < twice then quotient + 1
  else
    match tie with
    | .toEven => quotient + quotient % 2
    | .away => quotient + 1

/-- The whole number nearest to a finite float, halves away from zero. -/
def nearest? (x : Float) : Option Int :=
  (Binary.ofFloat? x).map fun b =>
    let size : Int := roundDiv .away b.numerator b.denominator
    if b.negative then -size else size

/-- A finite float without a fractional part. -/
def isWhole (x : Float) : Bool :=
  match Binary.ofFloat? x with
  | some b => b.numerator % b.denominator = 0
  | none => false

end Worksheet.Number
