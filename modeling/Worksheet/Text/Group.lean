/-!
# Brace groups

A group opens with a left brace and closes with the right brace that matches it. A backslash takes
the character after it out of the count.
-/

namespace Worksheet.Text

/-- The text up to the brace that closes a group, and the text after that brace. The first
argument counts the groups opened inside. -/
def untilClosed : Nat → List Char → Option (List Char × List Char)
  | _, [] => none
  | depth, '\\' :: cs =>
    match cs with
    | [] => none
    | c :: cs => (untilClosed depth cs).map fun (body, rest) => ('\\' :: c :: body, rest)
  | depth, '{' :: cs =>
    (untilClosed (depth + 1) cs).map fun (body, rest) => ('{' :: body, rest)
  | 0, '}' :: cs => some ([], cs)
  | depth + 1, '}' :: cs =>
    (untilClosed depth cs).map fun (body, rest) => ('}' :: body, rest)
  | depth, c :: cs => (untilClosed depth cs).map fun (body, rest) => (c :: body, rest)

/-- The contents of the group that a text begins with, and the text after it. -/
def group? : List Char → Option (List Char × List Char)
  | '{' :: cs => untilClosed 0 cs
  | _ => none

end Worksheet.Text
