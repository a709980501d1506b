import Worksheet.Text.CharSet
/-!
# Blanks

The characters of the Unicode property White_Space, and trimming by them.
-/

namespace Worksheet.Text

/-- The property White_Space. -/
def blanks : CharSet :=
  [(0x9, 0xD), (0x20, 0x20), (0x85, 0x85), (0xA0, 0xA0), (0x1680, 0x1680), (0x2000, 0x200A),
    (0x2028, 0x2029), (0x202F, 0x202F), (0x205F, 0x205F), (0x3000, 0x3000)]

def isBlank (c : Char) : Bool := blanks.contains c

def trimStart (cs : List Char) : List Char := cs.dropWhile isBlank

def trimEnd : List Char → List Char
  | [] => []
  | c :: cs =>
    match trimEnd cs with
    | [] => if isBlank c then [] else [c]
    | rest => c :: rest

def trim (cs : List Char) : List Char := trimEnd (trimStart cs)

end Worksheet.Text
