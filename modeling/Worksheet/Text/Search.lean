/-!
# Searching a text

Finding a text inside another one, and putting one in the place of another.
-/

namespace Worksheet.Text

/-- What stands before and after the first occurrence of a text. -/
def splitAt? (needle : List Char) : List Char → Option (List Char × List Char)
  | [] => none
  | c :: cs =>
    match needle.isPrefixOf? (c :: cs) with
    | some rest => some ([], rest)
    | none => (splitAt? needle cs).map fun (before, after) => (c :: before, after)

/-- Scans from the left; the first argument counts characters of an occurrence still to drop. -/
def replaceFrom (needle replacement : List Char) : Nat → List Char → List Char
  | _, [] => []
  | n + 1, _ :: cs => replaceFrom needle replacement n cs
  | 0, c :: cs =>
    if needle.isPrefixOf (c :: cs) then
      replacement ++ replaceFrom needle replacement (needle.length - 1) cs
    else
      c :: replaceFrom needle replacement 0 cs

/-- Replaces the occurrences of a text, from the left and without overlap. -/
def replace (needle replacement cs : List Char) : List Char :=
  replaceFrom needle replacement 0 cs

end Worksheet.Text
