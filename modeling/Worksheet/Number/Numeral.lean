import Worksheet.Number.Decimal
import Worksheet.Text.Digit
/-!
# Numerals

The spelling of numbers in a text: digits with at most one point, and perhaps an exponent.
-/

namespace Worksheet.Number.Numeral

open Worksheet.Text

def splitDigits (cs : List Char) : List Char × List Char :=
  (cs.takeWhile isDecimalDigit, cs.dropWhile isDecimalDigit)

/-- `1`, `1.`, `1.5` or `.5` at the beginning of a text. -/
def splitMantissa? (cs : List Char) : Option (List Char × List Char) :=
  match splitDigits cs with
  | ([], '.' :: rest) =>
    match splitDigits rest with
    | ([], _) => none
    | (fraction, rest) => some ('.' :: fraction, rest)
  | ([], _) => none
  | (whole, '.' :: rest) =>
    let (fraction, rest) := splitDigits rest
    some (whole ++ '.' :: fraction, rest)
  | (whole, rest) => some (whole, rest)

def splitSign : List Char → List Char × List Char
  | '+' :: rest => (['+'], rest)
  | '-' :: rest => (['-'], rest)
  | rest => ([], rest)

def isExponentMark (c : Char) : Bool := c = 'e' || c = 'E'

/-- `e5` or `E-5` at the beginning of a text, and nothing if that is not what stands there. -/
def splitExponent : List Char → List Char × List Char
  | [] => ([], [])
  | c :: cs =>
    if isExponentMark c then
      let (sign, rest) := splitSign cs
      match splitDigits rest with
      | ([], _) => ([], c :: cs)
      | (digits, rest) => (c :: sign ++ digits, rest)
    else ([], c :: cs)

/-- The longest numeral that a text begins with, and the rest. -/
def split? (cs : List Char) : Option (List Char × List Char) := do
  let (mantissa, rest) ← splitMantissa? cs
  let (exponent, rest) := splitExponent rest
  some (mantissa ++ exponent, rest)

def digitsValue (digits : List Char) : Nat :=
  digits.foldl (fun n c => 10 * n + digitValue c) 0

/-- Reads `e5` or `E-5`, and nothing as zero. -/
def exponentValue? : List Char → Option Int
  | [] => some 0
  | c :: cs =>
    let (sign, digits) := splitSign cs
    if isExponentMark c && !digits.isEmpty && digits.all Char.isDigit then
      let size : Int := digitsValue digits
      some (if sign = ['-'] then -size else size)
    else none

/-- The number that a numeral spells in the digits `0` to `9`. -/
def value? (cs : List Char) : Option Float := do
  let whole := cs.takeWhile Char.isDigit
  let rest := cs.dropWhile Char.isDigit
  let (fraction, rest) :=
    match rest with
    | '.' :: rest => (rest.takeWhile Char.isDigit, rest.dropWhile Char.isDigit)
    | rest => ([], rest)
  if whole.isEmpty && fraction.isEmpty then none
  else
    let exponent ← exponentValue? rest
    some (ofDecimal (digitsValue (whole ++ fraction)) (exponent - fraction.length))

end Worksheet.Number.Numeral
