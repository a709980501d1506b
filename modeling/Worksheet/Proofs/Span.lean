import Worksheet.Span
/-!
# Spans within bounds

A span lies within two positions of a text as far as positions can be held: beyond the last one, all
of them are the same.
-/

namespace Worksheet

theorem pin_mono {a b : Nat} (h : a ≤ b) : pin a ≤ pin b := by
  unfold pin
  omega

theorem pin_of_le {a b : Nat} (h : a ≤ pin b) : pin a = a := by
  unfold pin at *
  omega

theorem pin_add_pin (a b : Nat) : pin (pin a + pin b) = pin (a + b) := by
  unfold pin
  omega

namespace Span

/-- The span begins where `lo` is or later, and ends where `hi` is or before. -/
structure Within (lo hi : Nat) (s : Span) : Prop where
  begins : pin lo ≤ s.start
  ordered : s.start ≤ s.stop
  ends : s.stop ≤ pin hi

variable {lo hi a b : Nat} {s s' : Span}

theorem within_ofBytes (hlo : lo ≤ a) (h : a ≤ b) (hhi : b ≤ hi) : (ofBytes a b).Within lo hi :=
  ⟨pin_mono hlo, pin_mono h, pin_mono hhi⟩

theorem Within.mono (h : s.Within a b) (hlo : lo ≤ a) (hhi : b ≤ hi) : s.Within lo hi :=
  ⟨Nat.le_trans (pin_mono hlo) h.begins, h.ordered, Nat.le_trans h.ends (pin_mono hhi)⟩

theorem Within.union (h : s.Within lo hi) (h' : s'.Within lo hi) : (s.union s').Within lo hi where
  begins := Nat.le_min.2 ⟨h.begins, h'.begins⟩
  ordered := calc
    min s.start s'.start ≤ s.start := Nat.min_le_left _ _
    _ ≤ s.stop := h.ordered
    _ ≤ max s.stop s'.stop := Nat.le_max_left _ _
  ends := Nat.max_le.2 ⟨h.ends, h'.ends⟩

/-- From a position before the span up to its end. -/
theorem Within.beginAt (h : s.Within b hi) (hlo : lo ≤ a) (hab : a ≤ b) :
    (ofBytes a s.stop).Within lo hi := by
  have hstop : pin s.stop = s.stop := pin_of_le h.ends
  refine ⟨pin_mono hlo, ?_, ?_⟩
  · calc pin a ≤ pin b := pin_mono hab
      _ ≤ s.start := h.begins
      _ ≤ s.stop := h.ordered
      _ = pin s.stop := hstop.symm
  · calc pin s.stop = s.stop := hstop
      _ ≤ pin hi := h.ends

/-- From the beginning of the span up to a position after it. -/
theorem Within.endAt (h : s.Within lo a) (hab : a ≤ b) (hhi : b ≤ hi) :
    (ofBytes s.start b).Within lo hi := by
  have hstart : pin s.start = s.start := pin_of_le (Nat.le_trans h.ordered h.ends)
  refine ⟨?_, ?_, pin_mono hhi⟩
  · calc pin lo ≤ s.start := h.begins
      _ = pin s.start := hstart.symm
  · calc pin s.start = s.start := hstart
      _ ≤ s.stop := h.ordered
      _ ≤ pin a := h.ends
      _ ≤ pin b := pin_mono hab

theorem Within.shift (h : s.Within lo hi) (offset : Nat) :
    (s.shift offset).Within (lo + offset) (hi + offset) where
  begins := by
    rw [← pin_add_pin]
    exact pin_mono (Nat.add_le_add_right h.begins _)
  ordered := pin_mono (Nat.add_le_add_right h.ordered _)
  ends := by
    rw [← pin_add_pin hi]
    exact pin_mono (Nat.add_le_add_right h.ends _)

end Span

end Worksheet
