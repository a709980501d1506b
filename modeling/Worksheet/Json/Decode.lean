import Worksheet.Json.Reader
/-!
# Decoding JSON

What a JSON value says as a number, a choice among names or a record.
-/

namespace Worksheet.Json

/-- Counts and significands lie below. -/
def wordBound : Nat := 18446744073709551616

/-- Exponents are pinned here. -/
def exponentBound : Int := 2147483648

def string? : Json → Option String
  | .string text => some text
  | _ => none

def bool? : Json → Option Bool
  | .bool value => some value
  | _ => none

/-- A count: a literal without sign, point and exponent that fits in 64 bits. -/
def nat? : Json → Option Nat
  | .number literal =>
    if literal.toList.all Char.isDigit then
      let n := literal.toList.foldl (fun n c => 10 * n + (c.toNat - '0'.toNat)) 0
      if n < wordBound then some n else none
    else none
  | _ => none

/-- Appends digits to a significand for as long as it fits in 64 bits, and counts those left. -/
private def appendDigits : Nat → List Char → Nat × Nat
  | significand, [] => (significand, 0)
  | significand, c :: cs =>
    let longer := 10 * significand + (c.toNat - '0'.toNat)
    if longer < wordBound then appendDigits longer cs else (significand, cs.length + 1)

/-- The significand of a literal times a power of ten, computed with floats: each step rounds. -/
private def scaleFloat? (x : Float) (exponent : Int) : Option Float :=
  if exponent < -308 then
    if x == 0 then some x else scaleFloat? (x / 1e308) (exponent + 308)
  else if exponent < 0 then some (x / Float.ofScientific 1 false exponent.natAbs)
  else if exponent ≤ 308 then
    let scaled := x * Float.ofScientific 1 false exponent.natAbs
    if scaled.isInf then none else some scaled
  else if x == 0 then some x
  else none
termination_by (-exponent).toNat

/-- The exponent of a literal, pinned to 32 bits. -/
private def literalExponent (cs : List Char) : Int :=
  let (negative, digits) :=
    match cs with
    | '-' :: digits => (true, digits)
    | '+' :: digits => (false, digits)
    | digits => (false, digits)
  let size : Int := digits.foldl (fun n c => min exponentBound (10 * n + (c.toNat - '0'.toNat))) 0
  if negative then -size else size

/-- The float that a literal stands for: as many digits as fit in 64 bits, times or over one power
of ten. A literal beyond the range of floats stands for none. -/
private def literalFloat? (literal : List Char) : Option Float := do
  let (negative, digits) :=
    match literal with
    | '-' :: digits => (true, digits)
    | digits => (false, digits)
  let whole := digits.takeWhile Char.isDigit
  let rest := digits.dropWhile Char.isDigit
  let (fraction, rest) :=
    match rest with
    | '.' :: rest => (rest.takeWhile Char.isDigit, rest.dropWhile Char.isDigit)
    | rest => ([], rest)
  let (significand, wholeLeft) := appendDigits 0 whole
  let (significand, fractionLeft) := appendDigits significand fraction
  let exponent : Int := (wholeLeft : Int) - (fraction.length - fractionLeft : Nat)
  let size ← scaleFloat? (Float.ofNat significand) (exponent + literalExponent (rest.drop 1))
  some (if negative then -size else size)

def float? : Json → Option Float
  | .number literal => literalFloat? literal.toList
  | _ => none

/-- One of several names: the name itself, or an object with null under it. -/
def choice? : Json → Option String
  | .string name => some name
  | .object [(some name, .null)] => some name
  | _ => none

def list? (element? : Json → Option α) : Json → Option (List α)
  | .array elements => elements.mapM element?
  | _ => none

def optional? (value? : Json → Option α) : Json → Option (Option α)
  | .null => some none
  | value => (value? value).map some

/-- The value under a key that may stand once at most. -/
private def member? (members : List (Option String × Json)) (key : String) :
    Option (Option Json) :=
  match members.filter fun member => member.1 = some key with
  | [] => some none
  | [member] => some (some member.2)
  | _ => none

/-- The values of the named fields of a record, as far as they are present. An object names its
fields, and others in it do not count; a list holds them in order. -/
def fields? (names : List String) : Json → Option (List (Option Json))
  | .object members =>
    if members.any fun member => member.1.isNone then none
    else names.mapM (member? members)
  | .array elements =>
    if names.length < elements.length then none
    else some (elements.map some ++ List.replicate (names.length - elements.length) none)
  | _ => none

def field? (value? : Json → Option α) (default : α) : Option Json → Option α
  | some json => value? json
  | none => some default

end Worksheet.Json
