import Worksheet.Number.Decimal
/-!
# Shortest decimals

The fewest digits that read back as the same float, and the layouts they are written in.
-/

namespace Worksheet.Number

/-- The reals that round to a positive binary number, in quarters of its last place. -/
structure Reach where
  low : Nat
  high : Nat
  /-- Both ends round to the number too. -/
  closed : Bool

namespace Binary

/-- Below a power of two the floats lie twice as close. -/
def reach (b : Binary) : Reach :=
  let below := if b.significand = leadingBit ∧ -1074 < b.exponent then 1 else 2
  ⟨4 * b.significand - below, 4 * b.significand + 2, b.significand % 2 = 0⟩

/-- `n * 10 ^ exponent` rounds to the number. -/
def reaches (b : Binary) (n : Nat) (exponent : Int) : Bool :=
  let quarter := b.exponent - 2
  let point := n * tenPow exponent.toNat * twoPow (-quarter).toNat
  let unit := twoPow quarter.toNat * tenPow (-exponent).toNat
  let low := b.reach.low * unit
  let high := b.reach.high * unit
  if b.reach.closed then low ≤ point && point ≤ high else low < point && point < high

/-- The decimal with `count` digits that is nearest to a positive number, if one of the two next
to it rounds to the number. -/
def decimalWith? (tie : Tie) (b : Binary) (count : Nat) : Option (Nat × Int) :=
  let exponent := decimalExponent b.numerator b.denominator + 1 - count
  let (num, den) := overPowerOfTen b.numerator b.denominator exponent
  let lower := num / den
  let upper := lower + 1
  match b.reaches lower exponent, b.reaches upper exponent with
  | true, true => some (roundDiv tie num den, exponent)
  | true, false => some (lower, exponent)
  | false, true => some (upper, exponent)
  | false, false => none

end Binary

def dropZeros : Nat → Nat × Int → Nat × Int
  | 0, d => d
  | n + 1, (digits, exponent) =>
    if digits % 10 = 0 then dropZeros n (digits / 10, exponent + 1) else (digits, exponent)

/-- The shortest decimal that rounds to a positive number; seventeen digits always do. -/
def shortest (tie : Tie) (b : Binary) : Nat × Int :=
  match (List.range 17).findSome? fun n => b.decimalWith? tie (n + 1) with
  | some d => dropZeros 17 d
  | none => (0, 0)

/-- How the shortest decimal of a float is laid out. -/
structure Layout where
  tie : Tie
  /-- The exponents that are written out in full, if not all are. -/
  positional : Option (Int × Int)
  pointZero : Bool

namespace Layout

def positionalText (layout : Layout) (digits : List Char) (exponent : Int) : List Char :=
  if 0 ≤ exponent then
    digits ++ List.replicate exponent.toNat '0' ++ if layout.pointZero then ['.', '0'] else []
  else
    let places := (-exponent).toNat
    let padded := List.replicate (places + 1 - digits.length) '0' ++ digits
    padded.take (padded.length - places) ++ '.' :: padded.drop (padded.length - places)

def exponentText (digits : List Char) (exponent : Int) : List Char :=
  let mantissa :=
    match digits with
    | first :: second :: rest => first :: '.' :: second :: rest
    | short => short
  mantissa ++ 'e' :: (if 0 ≤ exponent then ['+'] else []) ++ (toString exponent).toList

def binaryText (layout : Layout) (b : Binary) : String :=
  let sign := if b.negative then ['-'] else []
  let (digits, exponent) := if b.significand = 0 then (0, 0) else shortest layout.tie b
  let spelled := (toString digits).toList
  let leading := exponent + spelled.length - 1
  let inFull :=
    match layout.positional with
    | none => true
    | some (low, high) => low ≤ leading && leading ≤ high
  String.ofList <| sign ++
    if inFull then layout.positionalText spelled exponent else exponentText spelled leading

def text (layout : Layout) (x : Float) : String :=
  match Binary.ofFloat? x with
  | some b => layout.binaryText b
  | none => if x.isNaN then "NaN" else if x < 0 then "-inf" else "inf"

end Layout

end Worksheet.Number
