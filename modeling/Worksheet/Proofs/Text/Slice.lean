import Worksheet.Proofs.Text.Blank
import Mathlib.Data.String.Basic
/-!
# Slices of a text

A slice is a run of whole characters of a text, at the byte that it starts at.
-/

namespace Worksheet.Text

theorem utf8ByteSize_ofList (cs : List Char) :
    (String.ofList cs).utf8ByteSize = byteSize cs := by
  induction cs with
  | nil => rfl
  | cons c cs ih =>
    rw [String.ofList_cons, String.utf8ByteSize_append, String.utf8ByteSize_singleton, ih]
    rfl

theorem utf8ByteSize_eq (s : String) : s.utf8ByteSize = byteSize s.toList := by
  rw [← utf8ByteSize_ofList, String.ofList_toList]

/-- The part stands in the text from some byte on. -/
def PartAt (cs : List Char) (start : Nat) (part : List Char) : Prop :=
  ∃ before after, cs = before ++ part ++ after ∧ byteSize before = start

variable {cs part inner : List Char} {start offset : Nat}

theorem partAt_append (before part after : List Char) :
    PartAt (before ++ part ++ after) (byteSize before) part := ⟨before, after, rfl, rfl⟩

theorem partAt_of_isPrefix (h : part <+: cs) : PartAt cs 0 part := by
  obtain ⟨after, rfl⟩ := h
  exact ⟨[], after, rfl, rfl⟩

/-- A part of a part. -/
theorem PartAt.within (h : PartAt cs start part) (hinner : PartAt part offset inner) :
    PartAt cs (start + offset) inner := by
  obtain ⟨before, after, rfl, rfl⟩ := h
  obtain ⟨before', after', rfl, rfl⟩ := hinner
  exact ⟨before ++ before', after' ++ after, by simp, byteSize_append _ _⟩

theorem PartAt.stop_le (h : PartAt cs start part) : start + byteSize part ≤ byteSize cs := by
  obtain ⟨before, after, rfl, rfl⟩ := h
  rw [byteSize_append, byteSize_append]
  exact Nat.le_add_right _ _

/-- What is left of a part without the blanks around it stands behind the ones before it. -/
theorem PartAt.trim (h : PartAt cs start part) :
    PartAt cs (start + byteSize (part.takeWhile isBlank)) (trim part) := by
  obtain ⟨rest, hrest⟩ := trimEnd_isPrefix (trimStart part)
  refine h.within ⟨part.takeWhile isBlank, rest, ?_, rfl⟩
  rw [List.append_assoc, Text.trim, hrest, trimStart, List.takeWhile_append_dropWhile]

/-- The part of a text from a byte on: its bytes are those of the text there, and it begins and ends
between whole characters. -/
structure Slice (text : String) (start : Nat) (part : String) : Prop where
  whole : ∃ before after, text = before ++ part ++ after ∧ before.utf8ByteSize = start
  bytes : text.toByteArray.extract start (start + part.utf8ByteSize) = part.toByteArray

theorem PartAt.slice {text part : String} (h : PartAt text.toList start part.toList) :
    Slice text start part := by
  obtain ⟨before, after, heq, rfl⟩ := h
  have htext : text = String.ofList before ++ part ++ String.ofList after := by
    rw [← String.toList_inj]
    simpa using heq
  refine ⟨⟨_, _, htext, utf8ByteSize_ofList before⟩, ?_⟩
  rw [htext, ← utf8ByteSize_ofList, String.toByteArray_append, String.toByteArray_append,
    ← String.size_toByteArray, ← String.size_toByteArray, ← ByteArray.size_append,
    ByteArray.extract_append_size_left]
  exact ByteArray.extract_append_eq_right rfl ByteArray.size_append

end Worksheet.Text
