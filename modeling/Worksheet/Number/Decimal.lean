import Worksheet.Number.Rounding
/-!
# Decimal numbers

The value of a decimal number as a float, and a float written with a given number of significant
digits or of decimal places. All of it rounds the exact value, halves to the even neighbour.
-/

namespace Worksheet.Number

def decimalLength (n : Nat) : Nat := (Nat.toDigits 10 n).length

/-- The float nearest to `digits * 10 ^ exponent`. Far outside of the range of floats the power is
never computed. -/
def ofDecimal (digits : Nat) (exponent : Int) : Float :=
  let size := decimalLength digits + exponent
  if digits = 0 ∨ size < -330 then 0
  else if 310 < size then 1 / 0
  else Float.ofScientific digits (exponent < 0) exponent.natAbs

/-- The quotient of two numbers over a power of ten, as a numerator and a denominator. -/
def overPowerOfTen (num den : Nat) (exponent : Int) : Nat × Nat :=
  (num * tenPow (-exponent).toNat, den * tenPow exponent.toNat)

/-- The exponent of the greatest power of ten that a positive quotient reaches. -/
def decimalExponent (num den : Nat) : Int :=
  let guess : Int := decimalLength num - decimalLength den
  let (scaledNum, scaledDen) := overPowerOfTen num den guess
  if scaledDen ≤ scaledNum then guess else guess - 1

/-- A number rounded to `count` significant digits, which `digits` spells without the point:
`digits * 10 ^ (exponent + 1 - count)`. -/
structure Scientific where
  negative : Bool
  count : Nat
  digits : Nat
  exponent : Int
deriving DecidableEq, Inhabited

namespace Scientific

/-- Rounds to `count` significant digits, of which there is at least one. -/
def ofBinary (count : Nat) (b : Binary) : Scientific :=
  if b.significand = 0 then ⟨b.negative, count, 0, 0⟩
  else
    let exponent := decimalExponent b.numerator b.denominator
    let (num, den) := overPowerOfTen b.numerator b.denominator (exponent + 1 - count)
    let digits := roundDiv .toEven num den
    if digits = tenPow count then ⟨b.negative, count, tenPow (count - 1), exponent + 1⟩
    else ⟨b.negative, count, digits, exponent⟩

def toFloat (s : Scientific) : Float :=
  let size := ofDecimal s.digits (s.exponent + 1 - s.count)
  if s.negative then -size else size

def mantissa (s : Scientific) : String :=
  let digits := (toString s.digits).toList
  let padded := List.replicate (s.count - digits.length) '0' ++ digits
  let sign := if s.negative then ['-'] else []
  String.ofList <|
    match padded with
    | first :: second :: rest => sign ++ first :: '.' :: second :: rest
    | short => sign ++ short

end Scientific

/-- A number with exactly `places` digits after the point. -/
def fixed (places : Nat) (b : Binary) : String :=
  let scaled := roundDiv .toEven (b.numerator * tenPow places) b.denominator
  let digits := (toString scaled).toList
  let padded := List.replicate (places + 1 - digits.length) '0' ++ digits
  let whole := padded.take (padded.length - places)
  let fraction := padded.drop (padded.length - places)
  let sign := if b.negative then ['-'] else []
  String.ofList <|
    if fraction.isEmpty then sign ++ whole else sign ++ whole ++ '.' :: fraction

end Worksheet.Number
