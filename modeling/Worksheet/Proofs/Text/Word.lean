import Worksheet.Text.Blank
import Worksheet.Text.Digit
import Worksheet.Text.Letter
import Worksheet.Text.Word
/-!
# Characters of words

Blanks and digits stand in no word at its beginning, since their ranges of code points are apart
from those of the characters of words.
-/

namespace Worksheet.Text

namespace CharSet

variable {s t : CharSet} {n low : Nat}

/-- Whether the sets have no code point in common. Both are walked through once. -/
def disjoint : CharSet → CharSet → Bool
  | [], _ => true
  | r :: s, t =>
    match t.dropWhile fun q => q.2 < r.1 with
    | [] => true
    | q :: t => r.2 < q.1 && disjoint s (q :: t)

/-- Ranges below a bound do not count for what is not below it. -/
theorem containsCode_dropWhile (hlow : low ≤ n) (h : t.containsCode n) :
    containsCode (t.dropWhile fun q => q.2 < low) n := by
  induction t with
  | nil => cases h
  | cons q t ih =>
    by_cases hq : q.2 < low
    · rw [List.dropWhile_cons_of_pos (by simpa using hq)]
      simp only [containsCode, Bool.and_eq_true, Bool.or_eq_true, decide_eq_true_eq] at h
      exact ih (h.2.resolve_left (by omega))
    · rw [List.dropWhile_cons_of_neg (by simpa using hq)]
      exact h

theorem not_containsCode_of_disjoint (h : disjoint s t) (hs : s.containsCode n) :
    ¬t.containsCode n := by
  induction s generalizing t with
  | nil => cases hs
  | cons r s ih =>
    intro ht
    simp only [containsCode, Bool.and_eq_true, Bool.or_eq_true, decide_eq_true_eq] at hs
    have hrest := containsCode_dropWhile hs.1 ht
    rw [disjoint] at h
    split at h
    · rename_i hnil
      rw [hnil] at hrest
      cases hrest
    · rename_i q t' hcons
      rw [hcons] at hrest
      simp only [Bool.and_eq_true, decide_eq_true_eq] at h
      obtain hr | hs := hs.2
      · simp only [containsCode, Bool.and_eq_true, decide_eq_true_eq] at hrest
        omega
      · exact ih h.2 hs hrest

theorem contains_eq_false_of_disjoint {c : Char} (h : disjoint s t) (hc : s.contains c) :
    t.contains c = false :=
  Bool.eq_false_iff.2 (not_containsCode_of_disjoint h hc)

end CharSet

/-! ## Blanks -/

theorem isWordContinue_of_isBlank {c : Char} (h : isBlank c) : isWordContinue c = false :=
  CharSet.contains_eq_false_of_disjoint (by decide) h

theorem isWordStart_of_isBlank {c : Char} (h : isBlank c) : isWordStart c = false :=
  CharSet.contains_eq_false_of_disjoint (by decide) h

/-! ## Digits of every script -/

theorem isWordStart_of_isDecimalDigit {c : Char} (h : isDecimalDigit c) : isWordStart c = false :=
  CharSet.contains_eq_false_of_disjoint (by decide) h

theorem isLetter_of_isDecimalDigit {c : Char} (h : isDecimalDigit c) : isLetter c = false :=
  CharSet.contains_eq_false_of_disjoint (by decide) h

theorem isBlank_of_isDecimalDigit {c : Char} (h : isDecimalDigit c) : isBlank c = false :=
  CharSet.contains_eq_false_of_disjoint (by decide) h

/-! ## Letters and numbers -/

theorem isBlank_of_isLetterOrNumber {c : Char} (h : isLetterOrNumber c) : isBlank c = false := by
  rw [isLetterOrNumber, Bool.or_eq_true] at h
  rcases h with h | h
  · exact CharSet.contains_eq_false_of_disjoint (by decide +kernel) h
  · exact CharSet.contains_eq_false_of_disjoint (by decide) h

theorem isBlank_of_isAlpha {c : Char} (h : c.isAlpha) : isBlank c = false := by
  have hcodes : ∀ n ∈ List.range' 65 58, blanks.containsCode n = false := by decide
  refine hcodes c.toNat (List.mem_range'_1.2 ?_)
  have hcases : c.isUpper ∨ c.isLower := Bool.or_eq_true_iff.1 h
  rcases hcases with hupper | hlower
  · have hrange : 65 ≤ c.toNat ∧ c.toNat ≤ 90 := of_decide_eq_true hupper
    omega
  · have hrange : decide (97 ≤ c.toNat) ∧ decide (c.toNat ≤ 122) :=
      Bool.and_eq_true_iff.1 hlower
    rw [decide_eq_true_eq, decide_eq_true_eq] at hrange
    omega

/-! ## Plain digits -/

theorem mem_range'_of_isDigit {c : Char} (h : c.isDigit) : c.toNat ∈ List.range' 48 10 := by
  simp only [Char.isDigit, Bool.and_eq_true, decide_eq_true_eq, ge_iff_le] at h
  have hlow : 48 ≤ c.toNat := h.1
  have hhigh : c.toNat ≤ 57 := h.2
  rw [List.mem_range'_1]
  omega

theorem isDecimalDigit_of_isDigit {c : Char} (h : c.isDigit) : isDecimalDigit c := by
  have hcodes : ∀ n ∈ List.range' 48 10, decimalDigits.containsCode n := by decide
  exact hcodes c.toNat (mem_range'_of_isDigit h)

theorem isAlpha_of_isDigit {c : Char} (h : c.isDigit) : c.isAlpha = false := by
  have hall : ∀ n ∈ List.range' 48 10, (Char.ofNat n).isAlpha = false := by decide
  have hdigit := hall c.toNat (mem_range'_of_isDigit h)
  rwa [Char.ofNat_toNat] at hdigit

theorem isWordStart_of_isDigit {c : Char} (h : c.isDigit) : isWordStart c = false :=
  isWordStart_of_isDecimalDigit (isDecimalDigit_of_isDigit h)

theorem isBlank_of_isDigit {c : Char} (h : c.isDigit) : isBlank c = false :=
  isBlank_of_isDecimalDigit (isDecimalDigit_of_isDigit h)

end Worksheet.Text
