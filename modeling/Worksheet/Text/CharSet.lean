/-!
# Character sets

Sets of characters, given as the ranges of their code points in increasing order.
-/

namespace Worksheet.Text

/-- Ranges of code points in increasing order, both ends included. -/
abbrev CharSet := List (Nat × Nat)

namespace CharSet

/-- The search stops at the first range that lies beyond the code point. -/
def containsCode : CharSet → Nat → Bool
  | [], _ => false
  | (low, high) :: rest, n => low ≤ n && (n ≤ high || containsCode rest n)

def contains (s : CharSet) (c : Char) : Bool := s.containsCode c.toNat

end CharSet

end Worksheet.Text
