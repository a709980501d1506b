import Worksheet.Text.Blank
import Worksheet.Text.Size
/-!
# Trimming

What is left of a text without the blanks at its end, and how long it is.
-/

namespace Worksheet.Text

variable {cs front rest : List Char}

theorem trimEnd_cons (c : Char) (cs : List Char) :
    trimEnd (c :: cs) =
      if trimEnd cs = [] then (if isBlank c then [] else [c]) else c :: trimEnd cs := by
  rw [trimEnd]
  split
  · rename_i h
    rw [if_pos h]
  · rename_i h
    rw [if_neg h]

theorem trimEnd_append (front rest : List Char) :
    trimEnd (front ++ rest) =
      if trimEnd rest = [] then trimEnd front else front ++ trimEnd rest := by
  induction front with
  | nil =>
      by_cases h : trimEnd rest = []
      · rw [List.nil_append, if_pos h, h, trimEnd]
      · rw [List.nil_append, if_neg h, List.nil_append]
  | cons c front ih =>
      rw [List.cons_append, trimEnd_cons, ih]
      by_cases h : trimEnd rest = []
      · rw [if_pos h, if_pos h, trimEnd_cons]
      · rw [if_neg h, if_neg h]
        simp [h]

theorem trimEnd_isPrefix (cs : List Char) : trimEnd cs <+: cs := by
  induction cs with
  | nil => exact List.prefix_rfl
  | cons c cs ih =>
      rw [trimEnd_cons]
      by_cases hrest : trimEnd cs = []
      · rw [if_pos hrest]
        by_cases hc : isBlank c
        · rw [if_pos hc]
          exact List.nil_prefix
        · rw [if_neg hc]
          exact ⟨cs, rfl⟩
      · rw [if_neg hrest]
        exact List.prefix_cons_inj c |>.2 ih

/-- A trimmed text begins as the text does. -/
theorem head?_trimEnd {c : Char} (h : c ∈ (trimEnd cs).head?) : c ∈ cs.head? := by
  obtain ⟨rest, hrest⟩ := trimEnd_isPrefix cs
  rw [← hrest, List.head?_append, Option.mem_def.1 h]
  rfl

theorem trimEnd_trimEnd (cs : List Char) : trimEnd (trimEnd cs) = trimEnd cs := by
  induction cs with
  | nil => rfl
  | cons c cs ih =>
      rw [trimEnd_cons]
      by_cases hrest : trimEnd cs = []
      · rw [if_pos hrest]
        by_cases hc : isBlank c
        · rw [if_pos hc]
          rfl
        · rw [if_neg hc]
          simp [trimEnd, hc]
      · rw [if_neg hrest, trimEnd_cons, ih, if_neg hrest]

/-- Behind a text that does not end in a blank, only what is added is trimmed. -/
theorem trimEnd_append_of_trimmed (h : trimEnd front = front) (rest : List Char) :
    trimEnd (front ++ rest) = front ++ trimEnd rest := by
  rw [trimEnd_append]
  by_cases hrest : trimEnd rest = []
  · rw [if_pos hrest, h, hrest, List.append_nil]
  · rw [if_neg hrest]

theorem trimEnd_concat {c : Char} (hc : isBlank c = false) (front : List Char) :
    trimEnd (front ++ [c]) = front ++ [c] := by
  have hlast : trimEnd [c] = [c] := by simp [trimEnd, hc]
  rw [trimEnd_append, hlast, if_neg (List.cons_ne_nil c [])]

theorem trimEnd_of_not_isBlank (h : ∀ c ∈ cs, isBlank c = false) : trimEnd cs = cs := by
  induction cs with
  | nil => rfl
  | cons c cs ih =>
      have hc := h c List.mem_cons_self
      rw [trimEnd_cons, ih fun d hd => h d (List.mem_cons_of_mem c hd)]
      by_cases hnil : cs = []
      · simp [hnil, hc]
      · rw [if_neg hnil]

theorem trimEnd_of_isBlank (h : ∀ c ∈ cs, isBlank c) : trimEnd cs = [] := by
  induction cs with
  | nil => rfl
  | cons c cs ih =>
    obtain ⟨hc, hcs⟩ := List.forall_mem_cons.1 h
    rw [trimEnd_cons, if_pos (ih hcs), if_pos hc]

/-- There are no blanks around a trimmed text. -/
theorem trim_eq_append {middle : List Char} (h : trim cs = front ++ middle ++ rest)
    (hfront : ∀ c ∈ front, isBlank c) (hrest : ∀ c ∈ rest, isBlank c) :
    front = [] ∧ rest = [] := by
  constructor
  · cases front with
    | nil => rfl
    | cons c front =>
      have hhead : c ∈ (trimStart cs).head? := head?_trimEnd (by
        change c ∈ (trim cs).head?
        rw [h]
        rfl)
      have hblank := List.head?_dropWhile_not isBlank cs
      rw [← trimStart, Option.mem_def.1 hhead] at hblank
      simp [hfront c List.mem_cons_self] at hblank
  · have htrimmed : trimEnd (trim cs) = trim cs := trimEnd_trimEnd _
    have hprefix := trimEnd_isPrefix (front ++ middle)
    rw [h, trimEnd_append, if_pos (trimEnd_of_isBlank hrest)] at htrimmed
    have hle := hprefix.length_le
    rw [htrimmed, List.length_append] at hle
    exact List.length_eq_zero_iff.1 (by omega)

/-! ## Characters that are no blanks -/

section

variable {p : Char → Bool} (hp : ∀ c, isBlank c → p c = false)

include hp

theorem filter_trimStart (cs : List Char) : (trimStart cs).filter p = cs.filter p := by
  induction cs with
  | nil => rfl
  | cons c cs ih =>
    rw [trimStart, List.dropWhile_cons]
    by_cases hc : isBlank c
    · rw [if_pos hc, List.filter_cons_of_neg (by simp [hp c hc])]
      exact ih
    · rw [if_neg hc]

theorem filter_trimEnd (cs : List Char) : (trimEnd cs).filter p = cs.filter p := by
  induction cs with
  | nil => rfl
  | cons c cs ih =>
    have hrest : trimEnd cs = [] → cs.filter p = [] := fun h => by rw [← ih, h, List.filter_nil]
    rw [trimEnd_cons, List.filter_cons]
    split
    · rename_i hnil
      rw [hrest hnil]
      split
      · rename_i hc
        rw [hp c hc]
        rfl
      · rw [List.filter_cons, List.filter_nil]
    · rw [List.filter_cons, ih]

theorem filter_trim (cs : List Char) : (trim cs).filter p = cs.filter p := by
  rw [trim, filter_trimEnd hp, filter_trimStart hp]

end

/-! ## Sizes -/

theorem byteSize_le_of_prefix (h : front <+: cs) : byteSize front ≤ byteSize cs := by
  obtain ⟨rest, rfl⟩ := h
  rw [byteSize_append]
  exact Nat.le_add_right _ _

/-- The blanks before a text and the text without blanks around it. -/
theorem byteSize_trim_le (cs : List Char) :
    byteSize (cs.takeWhile isBlank) + byteSize (trim cs) ≤ byteSize cs := by
  have htrim : byteSize (trim cs) ≤ byteSize (trimStart cs) :=
    byteSize_le_of_prefix (trimEnd_isPrefix _)
  calc byteSize (cs.takeWhile isBlank) + byteSize (trim cs)
      ≤ byteSize (cs.takeWhile isBlank) + byteSize (trimStart cs) := Nat.add_le_add_left htrim _
    _ = byteSize (cs.takeWhile isBlank ++ cs.dropWhile isBlank) := (byteSize_append _ _).symm
    _ = byteSize cs := by rw [List.takeWhile_append_dropWhile]

end Worksheet.Text
