/-!
# Spans

Byte ranges of a text. Statements are typed by hand, so a position is kept in sixteen bits, and
one that lies beyond is pinned to the last.
-/

namespace Worksheet

/-- The last position that a span can hold. -/
def lastPosition : Nat := 65535

/-- A position as a span holds it. -/
def pin (position : Nat) : Nat := min position lastPosition

/-- A range of bytes, from `start` up to and without `stop`. -/
structure Span where
  start : Nat
  stop : Nat
deriving DecidableEq, Inhabited

namespace Span

def ofBytes (start stop : Nat) : Span := ⟨pin start, pin stop⟩

def union (a b : Span) : Span := ⟨min a.start b.start, max a.stop b.stop⟩

def shift (s : Span) (offset : Nat) : Span :=
  ⟨pin (s.start + pin offset), pin (s.stop + pin offset)⟩

def text (s : Span) : String := toString s.start ++ ":" ++ toString s.stop

end Span

end Worksheet
