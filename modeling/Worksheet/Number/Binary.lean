import Worksheet.Number.Radix
/-!
# Binary numbers

The exact value of a finite float.
-/

namespace Worksheet.Number

/-- The number `significand * 2 ^ exponent`, with a sign that zero has too. -/
structure Binary where
  negative : Bool
  significand : Nat
  exponent : Int
deriving DecidableEq, Inhabited

/-- The bit that stands for the sign of a float. -/
def signBit : Nat := twoPow 63

/-- The bit before the fraction of a float, which is not written. -/
def leadingBit : Nat := twoPow 52

namespace Binary

/-- The value of a float, unless it is an infinity or no number. -/
def ofFloat? (x : Float) : Option Binary :=
  let bits := x.toBits.toNat
  let negative := bits / signBit = 1
  let biased : Nat := bits / leadingBit % 2048
  let fraction := bits % leadingBit
  if biased = 2047 then none
  else if biased = 0 then some ⟨negative, fraction, -1074⟩
  else some ⟨negative, fraction + leadingBit, (biased : Int) - 1075⟩

def numerator (b : Binary) : Nat := b.significand * twoPow b.exponent.toNat

def denominator (b : Binary) : Nat := twoPow (-b.exponent).toNat

end Binary

end Worksheet.Number
