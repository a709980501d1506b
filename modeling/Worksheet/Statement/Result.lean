import Worksheet.Markup
import Worksheet.Number.Numeral
import Worksheet.Text.Blank
import Worksheet.Token.UnitText
/-!
# Displayed results

A statement may carry the result of an earlier run after its display operator. The value is passed
over, and the unit it was shown in is what the next run shows it in.
-/

namespace Worksheet.Result

open Text

/-- The text after the bracket that closes the array a text begins with. The first argument counts
open brackets. -/
def afterArray? : Nat → List Char → Option (List Char)
  | _, [] => none
  | depth, c :: cs =>
    if c = '[' then afterArray? (depth + 1) cs
    else if c = ']' then if depth ≤ 1 then some cs else afterArray? (depth - 1) cs
    else afterArray? depth cs

def isLower (c : Char) : Bool := 'a' ≤ c && c ≤ 'z'

/-- The text after the end of a matrix, if a text begins with one. -/
def afterMatrixEndHere? (cs : List Char) : Option (List Char) := do
  let rest ← "\\end".toList.isPrefixOf? cs
  match trimStart rest with
  | '\x7b' :: rest =>
    match rest.dropWhile isLower with
    | '\x7d' :: after =>
      if "matrix".toList.isSuffixOf (rest.takeWhile isLower) then some after else none
    | _ => none
  | _ => none

def afterMatrixEnd? : List Char → Option (List Char)
  | [] => none
  | c :: cs => (afterMatrixEndHere? (c :: cs)).or (afterMatrixEnd? cs)

/-- The text after a multiplication with a power of ten, if a text begins with one. -/
def afterPowerOfTen? (cs : List Char) : Option (List Char) := do
  let rest ← "\\times".toList.isPrefixOf? (trimStart cs)
  let rest ← "10^\x7b".toList.isPrefixOf? (trimStart rest)
  match Number.Numeral.splitDigits (Number.Numeral.splitSign rest).2 with
  | (_ :: _, '\x7d' :: after) => some after
  | _ => none

/-- The text after a number with a sign and a power of ten, both of which may be absent. -/
def afterNumber? (cs : List Char) : Option (List Char) := do
  let (_, rest) ← Number.Numeral.split? (trimStart (Number.Numeral.splitSign cs).2)
  some ((afterPowerOfTen? rest).getD rest)

def dropSpaces : List Char → List Char
  | '~' :: cs => dropSpaces cs
  | '\\' :: ' ' :: cs => dropSpaces cs
  | '\\' :: ',' :: cs => dropSpaces cs
  | '\\' :: ';' :: cs => dropSpaces cs
  | c :: cs => if isBlank c then dropSpaces cs else c :: cs
  | [] => []

/-- What follows the value after a display operator. An array that is not closed takes all. -/
def afterValue (tail : List Char) : List Char :=
  let tail := trimStart tail
  dropSpaces <|
    match tail with
    | '[' :: _ => (afterArray? 0 tail).getD []
    | _ =>
      if "\\begin".toList.isPrefixOf tail then (afterMatrixEnd? tail).getD []
      else (afterNumber? tail).getD tail

/-- What is inside of the unit wrapper that a text begins with, or else the text itself. -/
def unitContent (cs : List Char) : List Char :=
  match cs with
  | '\\' :: rest =>
    if UnitText.wrappers.contains (String.ofList (rest.takeWhile Char.isAlpha)) then
      match group? (trimStart (rest.dropWhile Char.isAlpha)) with
      | some (body, _) => trim body
      | none => trim cs
    else trim cs
  | _ => trim cs

/-- The unit that a result should be shown in: one that could not be given in the last run, and else
the one that the displayed value has. -/
def hint? (tail : List Char) (markup : Option (List Char)) : Option String :=
  match markup.bind Markup.hint? with
  | some hint => some (String.ofList hint)
  | none =>
    match unitContent (afterValue tail) with
    | [] => none
    | hint => some (String.ofList hint)

end Worksheet.Result
