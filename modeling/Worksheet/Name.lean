import Worksheet.Text.Blank
import Worksheet.Text.Search
/-!
# Names

A name in its canonical spelling. Spellings that differ only in braces, blanks or the way a prime
is written share one name.
-/

namespace Worksheet

structure Name where
  text : String
deriving DecidableEq, Inhabited

namespace Name

def isLayout (c : Char) : Bool := c = '{' || c = '}' || Text.isBlank c

/-- Drops braces and blanks and writes every prime as an apostrophe. -/
def spell (cs : List Char) : List Char :=
  Text.replace "\\prime".toList ['\'']
    (Text.replace "^\\prime".toList ['\''] (cs.filter fun c => !isLayout c))

def ofSpelling (spelling : String) : Name := ⟨String.ofList (spell spelling.toList)⟩

/-- Carries a subscript or a prime, and so cannot be taken for a unit symbol. -/
def isDecorated (n : Name) : Bool := n.text.toList.any fun c => c = '_' || c = '\''

end Name

end Worksheet
