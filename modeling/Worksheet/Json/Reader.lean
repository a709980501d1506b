import Worksheet.Json.Basic
/-!
# Reading JSON

From the text to the tree. Nothing but blanks may stand around the value.
-/

namespace Worksheet.Json

private def isSpace (c : Char) : Bool := c = ' ' || c = '\n' || c = '\t' || c = '\r'

private def skipSpace (cs : List Char) : List Char := cs.dropWhile isSpace

private def hexValue? (c : Char) : Option Nat :=
  if c.isDigit then some (c.toNat - '0'.toNat)
  else if 'a' ≤ c ∧ c ≤ 'f' then some (c.toNat - 'a'.toNat + 10)
  else if 'A' ≤ c ∧ c ≤ 'F' then some (c.toNat - 'A'.toNat + 10)
  else none

private def splitHex? : List Char → Option (Nat × List Char)
  | a :: b :: c :: d :: rest => do
    let a ← hexValue? a
    let b ← hexValue? b
    let c ← hexValue? c
    let d ← hexValue? d
    some (((a * 16 + b) * 16 + c) * 16 + d, rest)
  | _ => none

private def simpleEscape? : Char → Option Nat
  | '"' => some 0x22
  | '\\' => some 0x5C
  | '/' => some 0x2F
  | 'b' => some 0x08
  | 'f' => some 0x0C
  | 'n' => some 0x0A
  | 'r' => some 0x0D
  | 't' => some 0x09
  | _ => none

/-- The codes inside a string literal, after its opening quote. Escaped halves of a surrogate pair
are codes of their own. -/
private def splitCodes? : Nat → List Char → Option (List Nat × List Char)
  | 0, _ => none
  | _, [] => none
  | fuel + 1, c :: cs =>
    if c = '"' then some ([], cs)
    else if c = '\\' then
      match cs with
      | 'u' :: cs => do
        let (code, rest) ← splitHex? cs
        let (codes, rest) ← splitCodes? fuel rest
        some (code :: codes, rest)
      | c :: cs => do
        let code ← simpleEscape? c
        let (codes, rest) ← splitCodes? fuel cs
        some (code :: codes, rest)
      | [] => none
    else if c.toNat < 32 then none
    else do
      let (codes, rest) ← splitCodes? fuel cs
      some (c.toNat :: codes, rest)

private def isHighHalf (code : Nat) : Bool := 0xD800 ≤ code && code ≤ 0xDBFF

private def isLowHalf (code : Nat) : Bool := 0xDC00 ≤ code && code ≤ 0xDFFF

/-- Joins surrogate pairs; a half that stands alone has no character. -/
private def joinHalves : List Nat → Option (List Char)
  | [] => some []
  | [code] => if isHighHalf code || isLowHalf code then none else some [Char.ofNat code]
  | code :: next :: rest =>
    if isHighHalf code then
      if isLowHalf next then
        (joinHalves rest).map
          (Char.ofNat (0x10000 + (code - 0xD800) * 0x400 + (next - 0xDC00)) :: ·)
      else none
    else if isLowHalf code then none
    else (joinHalves (next :: rest)).map (Char.ofNat code :: ·)

/-- The text of a string literal, after its opening quote. -/
private def splitString? (cs : List Char) : Option (Option String × List Char) := do
  let (codes, rest) ← splitCodes? (cs.length + 1) cs
  some ((joinHalves codes).map String.ofList, rest)

private def splitDigits (cs : List Char) : List Char × List Char :=
  (cs.takeWhile Char.isDigit, cs.dropWhile Char.isDigit)

/-- The point and the digits after it, if there is a point. -/
private def splitFraction? : List Char → Option (List Char × List Char)
  | '.' :: cs =>
    match splitDigits cs with
    | ([], _) => none
    | (digits, rest) => some ('.' :: digits, rest)
  | cs => some ([], cs)

private def splitExponent? : List Char → Option (List Char × List Char)
  | [] => some ([], [])
  | c :: cs =>
    if c = 'e' || c = 'E' then
      let (sign, rest) :=
        match cs with
        | '+' :: rest => (['+'], rest)
        | '-' :: rest => (['-'], rest)
        | rest => ([], rest)
      match splitDigits rest with
      | ([], _) => none
      | (digits, rest) => some (c :: sign ++ digits, rest)
    else some ([], c :: cs)

/-- The digits before the point: a zero, or digits that do not begin with one. -/
private def splitWhole? : List Char → Option (List Char × List Char)
  | '0' :: rest => some (['0'], rest)
  | cs =>
    match splitDigits cs with
    | ([], _) => none
    | (digits, rest) => some (digits, rest)

private def splitNumber? (cs : List Char) : Option (String × List Char) := do
  let (sign, rest) :=
    match cs with
    | '-' :: rest => (['-'], rest)
    | rest => ([], rest)
  let (whole, rest) ← splitWhole? rest
  let (fraction, rest) ← splitFraction? rest
  let (exponent, rest) ← splitExponent? rest
  some (String.ofList (sign ++ whole ++ fraction ++ exponent), rest)

mutual

/-- The value that a text begins with, after blanks. -/
private def splitValue? : Nat → List Char → Option (Json × List Char)
  | 0, _ => none
  | fuel + 1, cs =>
    match skipSpace cs with
    | 'n' :: 'u' :: 'l' :: 'l' :: rest => some (.null, rest)
    | 't' :: 'r' :: 'u' :: 'e' :: rest => some (.bool true, rest)
    | 'f' :: 'a' :: 'l' :: 's' :: 'e' :: rest => some (.bool false, rest)
    | '"' :: rest => do
      let (text, rest) ← splitString? rest
      some (text.elim .brokenString .string, rest)
    | '[' :: rest =>
      match skipSpace rest with
      | ']' :: rest => some (.array [], rest)
      | rest => do
        let (elements, rest) ← splitElements? fuel rest
        some (.array elements, rest)
    | '\x7b' :: rest =>
      match skipSpace rest with
      | '\x7d' :: rest => some (.object [], rest)
      | rest => do
        let (members, rest) ← splitMembers? fuel rest
        some (.object members, rest)
    | rest => do
      let (literal, rest) ← splitNumber? rest
      some (.number literal, rest)

private def splitElements? : Nat → List Char → Option (List Json × List Char)
  | 0, _ => none
  | fuel + 1, cs => do
    let (value, rest) ← splitValue? fuel cs
    match skipSpace rest with
    | ',' :: rest =>
      let (elements, rest) ← splitElements? fuel rest
      some (value :: elements, rest)
    | ']' :: rest => some ([value], rest)
    | _ => none

private def splitMembers? : Nat → List Char → Option (List (Option String × Json) × List Char)
  | 0, _ => none
  | fuel + 1, cs =>
    match skipSpace cs with
    | '"' :: rest => do
      let (key, rest) ← splitString? rest
      match skipSpace rest with
      | ':' :: rest =>
        let (value, rest) ← splitValue? fuel rest
        match skipSpace rest with
        | ',' :: rest =>
          let (members, rest) ← splitMembers? fuel rest
          some ((key, value) :: members, rest)
        | '\x7d' :: rest => some ([(key, value)], rest)
        | _ => none
      | _ => none
    | _ => none

end

/-- The value that a text spells. Each step of the reader drops a character, so the length of the
text bounds their number. -/
def read? (text : String) : Option Json :=
  let cs := text.toList
  match splitValue? (2 * cs.length + 2) cs with
  | some (value, rest) => if (skipSpace rest).isEmpty then some value else none
  | none => none

end Worksheet.Json
