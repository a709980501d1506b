import Worksheet.Proofs.Number.Finite
import Worksheet.Proofs.Number.Numeral
import Worksheet.Rendering
/-!
# The shapes of rendered numbers

A finite number is rendered as a numeral in plain digits, with a sign before it or not, and with a
power of ten behind it or not.
-/

namespace Worksheet.Rendering

open Number Numeral

/-- How a number is signed. -/
def signText (negative : Bool) : List Char := if negative then ['-'] else []

/-- A numeral with a sign or without one. -/
def IsSigned (cs : List Char) : Prop :=
  ∃ negative digits, cs = signText negative ++ digits ∧ IsPlain digits

/-- A numeral, and a power of ten if the number is shown with one. -/
inductive IsFigure : List Char → Prop where
  | plain {cs : List Char} (h : IsSigned cs) : IsFigure cs
  | scientific {cs : List Char} (h : IsSigned cs) (e : Int) :
      IsFigure (cs ++ (" \\times 10^\x7b".toList ++ (toString e).toList ++ ['\x7d']))

variable {cs front back digits fraction : List Char} {c d : Char}

theorem isSigned_of_isPlain (h : IsPlain cs) : IsSigned cs := ⟨false, cs, rfl, h⟩

/-! ## Zeros at the end -/

theorem dropTrailing_append (hd : d ≠ c) (front back : List Char) :
    dropTrailing c (front ++ d :: back) = front ++ d :: dropTrailing c back := by
  have hreverse : (front ++ d :: back).reverse = back.reverse ++ d :: front.reverse := by simp
  have hstop : (d :: front.reverse).dropWhile (· = c) = d :: front.reverse := by simp [hd]
  unfold dropTrailing
  rw [hreverse, List.dropWhile_append, hstop]
  split
  · rename_i hempty
    rw [List.isEmpty_iff.1 hempty]
    simp
  · simp

theorem dropTrailing_concat (c : Char) (front : List Char) :
    dropTrailing c (front ++ [c]) = dropTrailing c front := by
  simp [dropTrailing]

theorem isDigit_of_mem_dropTrailing (h : ∀ d ∈ cs, d.isDigit) (c : Char) :
    ∀ d ∈ dropTrailing c cs, d.isDigit := by
  intro d hd
  have hmem := (List.dropWhile_suffix (· = c)).subset (List.mem_reverse.1 hd)
  exact h d (List.mem_reverse.1 hmem)

theorem dropTrailing_point (front : List Char) (hne : digits ≠ []) (h : ∀ d ∈ digits, d.isDigit) :
    dropTrailing '.' (front ++ digits) = front ++ digits := by
  have hlast : digits.getLast hne ≠ '.' := by
    intro hpoint
    have hdigit := h _ (List.getLast_mem hne)
    rw [hpoint] at hdigit
    cases hdigit
  rw [← List.dropLast_concat_getLast hne, ← List.append_assoc]
  exact dropTrailing_append hlast (front ++ digits.dropLast) []

/-- No zero at the end of a fraction is kept, and no point with nothing behind it. -/
theorem exists_isPlain_trimmed (front : List Char) (hne : digits ≠ [])
    (hdigits : ∀ d ∈ digits, d.isDigit) (hfraction : ∀ d ∈ fraction, d.isDigit) :
    ∃ kept, dropTrailing '.' (dropTrailing '0' (front ++ (digits ++ '.' :: fraction))) =
      front ++ kept ∧ IsPlain kept := by
  have hzeros := isDigit_of_mem_dropTrailing hfraction '0'
  rw [← List.append_assoc, dropTrailing_append (by decide)]
  by_cases hnil : dropTrailing '0' fraction = []
  · refine ⟨digits, ?_, .whole hne hdigits⟩
    rw [hnil, dropTrailing_concat, dropTrailing_point front hne hdigits]
  · refine ⟨digits ++ '.' :: dropTrailing '0' fraction, ?_, .decimal hne hdigits hzeros⟩
    have hsplit : front ++ digits ++ '.' :: dropTrailing '0' fraction =
        front ++ digits ++ ['.'] ++ dropTrailing '0' fraction := by simp
    rw [hsplit, dropTrailing_point _ hnil hzeros]
    simp

theorem not_mem_of_isDigit (h : ∀ d ∈ digits, d.isDigit) (negative : Bool) :
    '.' ∉ signText negative ++ digits := by
  intro hmem
  rcases List.mem_append.1 hmem with hmem | hmem
  · cases negative
    · cases hmem
    · exact absurd hmem (by decide)
  · cases h '.' hmem

theorem IsSigned.trimZeros {text : String} (h : IsSigned text.toList) :
    IsSigned (trimZeros text).toList := by
  obtain ⟨negative, digits, htext, hdigits⟩ := h
  have htrimmed : IsSigned (if text.toList.contains '.' then
      dropTrailing '.' (dropTrailing '0' text.toList) else text.toList) := by
    rw [htext]
    cases hdigits with
    | whole hne hall =>
      have hpoint : (signText negative ++ digits).contains '.' = false := by
        simpa using not_mem_of_isDigit hall negative
      rw [hpoint]
      exact ⟨negative, digits, rfl, .whole hne hall⟩
    | @decimal digits fraction hne hall hfraction =>
      have hpoint : (signText negative ++ (digits ++ '.' :: fraction)).contains '.' = true := by
        simp
      obtain ⟨kept, hkept, hplain⟩ :=
        exists_isPlain_trimmed (signText negative) hne hall hfraction
      rw [hpoint, if_pos rfl]
      exact ⟨negative, kept, hkept, hplain⟩
  unfold Rendering.trimZeros
  dsimp only
  generalize (if text.toList.contains '.' then
    dropTrailing '.' (dropTrailing '0' text.toList) else text.toList) = trimmed at htrimmed ⊢
  split
  · exact isSigned_of_isPlain (.whole (by decide) (by decide))
  · rw [String.toList_ofList]
    exact htrimmed

/-! ## Digits -/

theorem isDigit_of_mem_padded (n scaled : Nat) :
    ∀ d ∈ List.replicate n '0' ++ (toString scaled).toList, d.isDigit := by
  intro d hd
  rcases List.mem_append.1 hd with hd | hd
  · rw [List.eq_of_mem_replicate hd]
    rfl
  · exact isDigit_of_mem_toString hd

theorem padded_ne_nil (n scaled : Nat) :
    List.replicate n '0' ++ (toString scaled).toList ≠ [] :=
  List.append_ne_nil_of_right_ne_nil _ (toString_ne_nil scaled)

theorem isSigned_mantissa (s : Scientific) : IsSigned s.mantissa.toList := by
  unfold Scientific.mantissa
  dsimp only
  rw [String.toList_ofList]
  have hne := padded_ne_nil (s.count - (toString s.digits).toList.length) s.digits
  have hall := isDigit_of_mem_padded (s.count - (toString s.digits).toList.length) s.digits
  split
  · rename_i first second rest hpadded
    rw [hpadded] at hall
    obtain ⟨hfirst, hrest⟩ := List.forall_mem_cons.1 hall
    refine ⟨s.negative, [first] ++ '.' :: second :: rest, rfl, .decimal (by simp) ?_ hrest⟩
    simpa using hfirst
  · exact ⟨s.negative, _, rfl, .whole hne hall⟩

theorem isSigned_fixed (places : Nat) (b : Binary) : IsSigned (fixed places b).toList := by
  unfold fixed
  dsimp only
  rw [String.toList_ofList]
  generalize roundDiv .toEven (b.numerator * tenPow places) b.denominator = scaled
  generalize hpadded : List.replicate (places + 1 - (toString scaled).toList.length) '0' ++
    (toString scaled).toList = padded
  have hall := isDigit_of_mem_padded (places + 1 - (toString scaled).toList.length) scaled
  rw [hpadded] at hall
  have hlength : places < padded.length := by
    rw [← hpadded, List.length_append, List.length_replicate]
    omega
  have hwhole : ∀ d ∈ padded.take (padded.length - places), d.isDigit :=
    fun d hd => hall d (List.mem_of_mem_take hd)
  have hne : padded.take (padded.length - places) ≠ [] := by
    rw [← List.length_pos_iff, List.length_take]
    omega
  split
  · exact ⟨b.negative, _, rfl, .whole hne hwhole⟩
  · refine ⟨b.negative, _, List.append_assoc _ _ _, .decimal hne hwhole ?_⟩
    exact fun d hd => hall d (List.mem_of_mem_drop hd)

/-! ## Numbers -/

/-- A float with as many digits as the settings ask for. -/
def rounded (s : Settings) (b : Binary) : Scientific := .ofBinary (max s.precision 1) b

/-- What has no figures is spelled out. -/
def spelledOut : List String := ["inf", "-inf", "\\mathrm\x7bNaN\x7d"]

/-- A finite number is shown in figures, unless it becomes infinite when it is rounded and there is
no bound from which on numbers are shown with a power of ten. -/
theorem finiteNumber_cases (s : Settings) (b : Binary) :
    IsFigure (finiteNumber s b).toList ∨ finiteNumber s b ∈ spelledOut ∧
      s.scientificAbove.isNaN = true ∧ (rounded s b).toFloat.isFinite = false := by
  unfold finiteNumber
  dsimp only
  split
  · exact .inl (.plain (isSigned_of_isPlain (.whole (by decide) (by decide))))
  split
  · have hpower := IsFigure.scientific (isSigned_mantissa (rounded s b)).trimZeros
      (rounded s b).exponent
    exact .inl (by simpa [rounded] using hpower)
  · rename_i hrange
    split
    · exact .inl (.plain (isSigned_fixed _ _).trimZeros)
    · rename_i hnone
      have hinfinite := ofFloat?_eq_none_iff.1 hnone
      refine .inr ⟨by split <;> decide, ?_, hinfinite⟩
      by_contra habove
      simp only [Bool.or_eq_true, decide_eq_true_eq, not_or] at hrange
      exact hrange.1 (le_abs_of_infinite (rounded s b).isNaN_toFloat hinfinite (by simpa using habove))

theorem number_cases (s : Settings) (x : Float) :
    IsFigure (number s x).toList ∨ number s x ∈ spelledOut := by
  unfold number
  split
  · exact (finiteNumber_cases s _).imp_right And.left
  · refine .inr ?_
    split
    · decide
    · split <;> decide

/-- Rounding leads to a finite number, or there is a bound that an infinite one is above. -/
def Bounds (s : Settings) (x : Float) : Prop :=
  s.scientificAbove.isNaN = false ∨
    ∀ b, Binary.ofFloat? x = some b → (rounded s b).toFloat.isFinite

theorem isFigure_number {s : Settings} {x : Float} (hx : x.isFinite) (h : Bounds s x) :
    IsFigure (number s x).toList := by
  obtain ⟨b, hb⟩ := ofFloat?_of_isFinite hx
  unfold number
  rw [hb]
  rcases finiteNumber_cases s b with hfigure | ⟨-, habove, hinfinite⟩
  · exact hfigure
  · rcases h with hbound | hfinite
    · rw [habove] at hbound
      cases hbound
    · rw [hfinite b hb] at hinfinite
      cases hinfinite

end Worksheet.Rendering
