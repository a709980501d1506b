import Worksheet.Number.Numeral
import Worksheet.Proofs.Text.Search
import Worksheet.Proofs.Text.Word
import Mathlib.Data.Nat.Digits.Defs
/-!
# Reading numerals

A numeral in plain digits is read as a whole, up to where the text stops going on like one, and the
digits of a whole number read as the number.
-/

namespace Worksheet

open Text

namespace Number.Numeral

/-- A character that would make a numeral before it longer, or wrong. -/
def goesOn (c : Char) : Bool := isDecimalDigit c || c = '.' || isExponentMark c

/-- Signs that end a numeral before them. -/
def numberBreaks : List Char :=
  [' ', '\\', '^', '*', '/', '(', ')', '[', ']', '{', '}', ',']

theorem goesOn_of_mem {c : Char} (h : c ∈ numberBreaks) : goesOn c = false := by
  have hall : ∀ c ∈ numberBreaks, goesOn c = false := by decide
  exact hall c h

theorem stops_goesOn {c : Char} (h : c ∈ numberBreaks) (rest : List Char) :
    Stops goesOn (c :: rest) :=
  stops_cons.2 (goesOn_of_mem h)

/-- Digits, with at most one point behind the first of them. -/
inductive IsPlain : List Char → Prop where
  | whole {digits : List Char} (hne : digits ≠ []) (hdigits : ∀ c ∈ digits, c.isDigit) :
      IsPlain digits
  | decimal {digits fraction : List Char} (hne : digits ≠ []) (hdigits : ∀ c ∈ digits, c.isDigit)
      (hfraction : ∀ c ∈ fraction, c.isDigit) : IsPlain (digits ++ '.' :: fraction)

variable {cs digits fraction rest : List Char}

theorem stops_of_goesOn (h : Stops goesOn rest) :
    Stops isDecimalDigit rest ∧ Stops (· = '.') rest ∧ Stops isExponentMark rest := by
  cases rest with
  | nil => exact ⟨stops_nil, stops_nil, stops_nil⟩
  | cons c rest => simpa [goesOn, and_assoc] using h

theorem splitDigits_append (hdigits : ∀ c ∈ digits, c.isDigit) (hrest : Stops isDecimalDigit rest) :
    splitDigits (digits ++ rest) = (digits, rest) := by
  have hall : ∀ c ∈ digits, isDecimalDigit c := fun c hc => isDecimalDigit_of_isDigit (hdigits c hc)
  rw [splitDigits, takeWhile_append_of_stops hall hrest, dropWhile_append_of_stops hall hrest]

theorem splitExponent_of_stops (h : Stops isExponentMark rest) : splitExponent rest = ([], rest) := by
  cases rest with
  | nil => rfl
  | cons c rest => simp [splitExponent, stops_cons.1 h]

theorem IsPlain.begins (h : IsPlain cs) : ∃ d ds, cs = d :: ds ∧ d.isDigit := by
  cases h with
  | whole hne hdigits =>
    obtain ⟨d, ds, rfl⟩ := List.exists_cons_of_ne_nil hne
    exact ⟨d, ds, rfl, hdigits d List.mem_cons_self⟩
  | decimal hne hdigits _ =>
    obtain ⟨d, ds, rfl⟩ := List.exists_cons_of_ne_nil hne
    exact ⟨d, _, rfl, hdigits d List.mem_cons_self⟩

theorem IsPlain.splitMantissa? (h : IsPlain cs) (hdigit : Stops isDecimalDigit rest)
    (hpoint : Stops (· = '.') rest) : splitMantissa? (cs ++ rest) = some (cs, rest) := by
  cases h with
  | whole hne hdigits =>
    obtain ⟨d, ds, rfl⟩ := List.exists_cons_of_ne_nil hne
    unfold Numeral.splitMantissa?
    rw [splitDigits_append hdigits hdigit]
    cases rest with
    | nil => rfl
    | cons c rest => simp_all
  | @decimal digits fraction hne hdigits hfraction =>
    obtain ⟨d, ds, rfl⟩ := List.exists_cons_of_ne_nil hne
    have hwhole : splitDigits (d :: ds ++ '.' :: (fraction ++ rest)) =
        (d :: ds, '.' :: (fraction ++ rest)) :=
      splitDigits_append hdigits (stops_cons.2 (by decide))
    have happend : d :: ds ++ '.' :: fraction ++ rest = d :: ds ++ '.' :: (fraction ++ rest) := by
      simp
    unfold Numeral.splitMantissa?
    rw [happend, hwhole]
    simp [splitDigits_append hfraction hdigit]

theorem IsPlain.split? (h : IsPlain cs) (hrest : Stops goesOn rest) :
    split? (cs ++ rest) = some (cs, rest) := by
  obtain ⟨hdigit, hpoint, hmark⟩ := stops_of_goesOn hrest
  simp [Numeral.split?, h.splitMantissa? hdigit hpoint, splitExponent_of_stops hmark]

/-! ## What is left -/

theorem append_splitDigits (cs : List Char) : (splitDigits cs).1 ++ (splitDigits cs).2 = cs :=
  List.takeWhile_append_dropWhile

theorem append_of_splitDigits (h : splitDigits cs = (digits, rest)) : digits ++ rest = cs := by
  have happend := append_splitDigits cs
  rwa [h] at happend

theorem append_of_splitMantissa? {mantissa : List Char}
    (h : Numeral.splitMantissa? cs = some (mantissa, rest)) : mantissa ++ rest = cs := by
  unfold Numeral.splitMantissa? at h
  split at h
  · rename_i after hwhole
    have hcs := append_of_splitDigits hwhole
    split at h
    · cases h
    · rename_i fraction rest' _ hfraction
      cases h
      rw [← hcs, ← append_of_splitDigits hfraction]
      rfl
  · cases h
  · rename_i whole after _ hwhole
    cases h
    rw [← append_of_splitDigits hwhole, ← append_splitDigits after]
    simp
  · rename_i whole rest' _ _ hwhole
    cases h
    exact append_of_splitDigits hwhole

theorem append_splitSign (cs : List Char) : (splitSign cs).1 ++ (splitSign cs).2 = cs := by
  fun_cases splitSign <;> rfl

theorem append_splitExponent (cs : List Char) :
    (splitExponent cs).1 ++ (splitExponent cs).2 = cs := by
  unfold splitExponent
  split
  · rfl
  · rename_i c cs
    split
    · dsimp only
      split
      · rfl
      · rename_i digits rest _ hdigits
        rw [List.cons_append, List.cons_append, List.append_assoc, append_of_splitDigits hdigits,
          append_splitSign]
    · rfl

/-- A numeral and what is left behind it are the text. -/
theorem append_of_split? {number : List Char} (h : Numeral.split? cs = some (number, rest)) :
    number ++ rest = cs := by
  obtain ⟨⟨mantissa, after⟩, hmantissa, h⟩ := Option.bind_eq_some_iff.1 h
  simp only [Option.some.injEq, Prod.mk.injEq] at h
  obtain ⟨rfl, rfl⟩ := h
  rw [List.append_assoc, append_splitExponent, append_of_splitMantissa? hmantissa]

/-! ## Digits in front -/

theorem splitDigits_cons {c : Char} (hc : isDecimalDigit c) (cs : List Char) :
    splitDigits (c :: cs) = (c :: (splitDigits cs).1, (splitDigits cs).2) := by
  rw [splitDigits, List.takeWhile_cons_of_pos hc, List.dropWhile_cons_of_pos hc]
  rfl

theorem splitMantissa?_digit {c : Char} (hc : isDecimalDigit c) (cs : List Char) :
    splitMantissa? (c :: cs) =
      match (splitDigits cs).2 with
      | '.' :: rest =>
        some (c :: (splitDigits cs).1 ++ '.' :: (splitDigits rest).1, (splitDigits rest).2)
      | rest => some (c :: (splitDigits cs).1, rest) := by
  unfold Numeral.splitMantissa?
  rw [splitDigits_cons hc]
  generalize splitDigits cs = split
  obtain ⟨whole, after⟩ := split
  dsimp only
  split <;> simp_all

/-- A text that begins with a digit begins with a number. -/
theorem split?_eq_some {c : Char} (hc : isDecimalDigit c) (cs : List Char) :
    ∃ more rest, cs = more ++ rest ∧ split? (c :: cs) = some (c :: more, rest) := by
  have hmantissa : ∃ more rest, splitMantissa? (c :: cs) = some (c :: more, rest) := by
    rw [splitMantissa?_digit hc]
    split
    · exact ⟨_, _, rfl⟩
    · exact ⟨_, _, rfl⟩
  obtain ⟨more, rest, hmantissa⟩ := hmantissa
  have hsplit : split? (c :: cs) =
      some (c :: (more ++ (splitExponent rest).1), (splitExponent rest).2) := by
    simp [Numeral.split?, hmantissa]
  exact ⟨_, _, (List.cons.inj (append_of_split? hsplit)).2.symm, hsplit⟩

/-- A digit in front of a digit belongs to the same number. -/
theorem split?_cons_iff {c d : Char} (hc : isDecimalDigit c) (hd : isDecimalDigit d)
    {more : List Char} :
    split? (c :: d :: cs) = some (c :: more, rest) ↔ split? (d :: cs) = some (more, rest) := by
  have hmantissa : splitMantissa? (c :: d :: cs) =
      (splitMantissa? (d :: cs)).map fun p => (c :: p.1, p.2) := by
    rw [splitMantissa?_digit hc, splitMantissa?_digit hd, splitDigits_cons hd]
    split <;> simp_all
  unfold Numeral.split?
  rw [hmantissa]
  cases splitMantissa? (d :: cs) <;> simp

/-! ## Values -/

theorem IsPlain.value? (h : IsPlain cs) : ∃ x, value? cs = some x := by
  cases h with
  | whole hne hdigits =>
    have htake : cs.takeWhile Char.isDigit = cs := by
      simpa using takeWhile_append_of_stops hdigits stops_nil
    have hdrop : cs.dropWhile Char.isDigit = [] := by
      simpa using dropWhile_append_of_stops hdigits stops_nil
    simp [Numeral.value?, htake, hdrop, hne, exponentValue?]
  | @decimal digits fraction hne hdigits hfraction =>
    have hpoint : Stops Char.isDigit ('.' :: fraction) := stops_cons.2 (by decide)
    have htake := takeWhile_append_of_stops hdigits hpoint
    have hdrop := dropWhile_append_of_stops hdigits hpoint
    have hfrac : fraction.takeWhile Char.isDigit = fraction := by
      simpa using takeWhile_append_of_stops hfraction stops_nil
    have hend : fraction.dropWhile Char.isDigit = [] := by
      simpa using dropWhile_append_of_stops hfraction stops_nil
    simp [Numeral.value?, htake, hdrop, hfrac, hend, hne, exponentValue?]

theorem toList_toString (n : Nat) : (toString n).toList = Nat.toDigits 10 n := by
  rw [Nat.toString_eq_repr, Nat.toList_repr]

theorem isDigit_of_mem_toString {n : Nat} {c : Char} (h : c ∈ (toString n).toList) : c.isDigit := by
  rw [toList_toString] at h
  exact Nat.isDigit_of_mem_toDigits (by decide) (by decide) h

theorem toString_ne_nil (n : Nat) : (toString n).toList ≠ [] := by
  rw [toList_toString]
  exact Nat.toDigits_ne_nil

theorem toList_toString_negSucc (n : Nat) :
    (toString (Int.negSucc n)).toList = '-' :: (toString (n + 1)).toList := by
  change ("-" ++ toString (n + 1)).toList = _
  rw [String.toList_append]
  rfl

theorem mem_toString_int {n : Int} {c : Char} (h : c ∈ (toString n).toList) :
    c.isDigit ∨ c = '-' := by
  cases n with
  | ofNat n => exact .inl (isDigit_of_mem_toString h)
  | negSucc n =>
    rw [toList_toString_negSucc] at h
    rcases List.mem_cons.1 h with rfl | h
    · exact .inr rfl
    · exact .inl (isDigit_of_mem_toString h)

theorem toString_int_ne_nil (n : Int) : (toString n).toList ≠ [] := by
  cases n with
  | ofNat n => exact toString_ne_nil n
  | negSucc n =>
    rw [toList_toString_negSucc]
    exact List.cons_ne_nil _ _

theorem isPlain_toString (n : Nat) : IsPlain (toString n).toList :=
  .whole (toString_ne_nil n) fun _ => isDigit_of_mem_toString

theorem digitsValue_toString (n : Nat) : digitsValue (toString n).toList = n := by
  rw [toList_toString]
  exact Nat.ofDigitChars_ten_toDigits

/-- The digits of a whole number that a float has read as that float. -/
theorem value?_toString {n : Nat} (hpos : 0 < n) (h : n < 2 ^ 53) :
    value? (toString n).toList = some (Float.ofNat n) := by
  have hdigits : ∀ c ∈ (toString n).toList, c.isDigit := fun _ => isDigit_of_mem_toString
  have hne := toString_ne_nil n
  have htake : (toString n).toList.takeWhile Char.isDigit = (toString n).toList := by
    simpa using takeWhile_append_of_stops hdigits stops_nil
  have hdrop : (toString n).toList.dropWhile Char.isDigit = [] := by
    simpa using dropWhile_append_of_stops hdigits stops_nil
  have hlength : decimalLength n ≤ 16 := by
    rw [decimalLength, Nat.length_toDigits_le_iff (by decide) (by decide)]
    omega
  have hdecimal : ofDecimal n 0 = Float.ofNat n := by
    unfold ofDecimal
    dsimp only
    rw [if_neg (by omega), if_neg (by omega)]
    rfl
  have hvalue : value? (toString n).toList =
      some (ofDecimal (digitsValue (toString n).toList) 0) := by
    unfold value?
    dsimp only
    rw [htake, hdrop]
    simp [exponentValue?]
  rw [hvalue, digitsValue_toString, hdecimal]

/-! ## Numerals with a value -/

/-- An exponent, or nothing. -/
inductive IsExponent : List Char → Prop where
  | none : IsExponent []
  | mark {c : Char} {sign digits : List Char} (hmark : isExponentMark c)
      (hsign : sign ∈ [[], ['+'], ['-']]) (hne : digits ≠ []) (hdigits : ∀ c ∈ digits, c.isDigit) :
      IsExponent (c :: (sign ++ digits))

/-- Digits with at most one point, which may stand in front of all of them. -/
inductive IsMantissa : List Char → Prop where
  | plain {cs : List Char} (h : IsPlain cs) : IsMantissa cs
  | fraction {fraction : List Char} (hne : fraction ≠ []) (hdigits : ∀ c ∈ fraction, c.isDigit) :
      IsMantissa ('.' :: fraction)

theorem isExponent_of_value? {n : Int} (h : exponentValue? cs = some n) : IsExponent cs := by
  cases cs with
  | nil => exact .none
  | cons c cs =>
    have hsign : (splitSign cs).1 ∈ [[], ['+'], ['-']] := by
      fun_cases splitSign cs <;> simp
    have hsplit := append_splitSign cs
    rw [exponentValue?] at h
    generalize splitSign cs = split at h hsign hsplit
    obtain ⟨sign, digits⟩ := split
    subst hsplit
    dsimp only at h
    split at h
    · rename_i hall
      simp only [Bool.and_eq_true, Bool.not_eq_true', List.isEmpty_eq_false_iff] at hall
      exact .mark hall.1.1 hsign hall.1.2 (List.all_eq_true.1 hall.2)
    · cases h

theorem numeral_of_value? {x : Float} (h : value? cs = some x) :
    ∃ mantissa exponent, IsMantissa mantissa ∧ IsExponent exponent ∧
      cs = mantissa ++ exponent := by
  have hwhole : ∀ c ∈ cs.takeWhile Char.isDigit, c.isDigit := List.all_eq_true.1 List.all_takeWhile
  have hcs := @List.takeWhile_append_dropWhile _ Char.isDigit cs
  unfold value? at h
  dsimp only at h
  generalize cs.takeWhile Char.isDigit = whole at h hwhole hcs
  generalize cs.dropWhile Char.isDigit = after at h hcs
  subst hcs
  split at h
  · rename_i rest
    have hfraction : ∀ c ∈ rest.takeWhile Char.isDigit, c.isDigit :=
      List.all_eq_true.1 List.all_takeWhile
    have hrest := @List.takeWhile_append_dropWhile _ Char.isDigit rest
    generalize rest.takeWhile Char.isDigit = fraction at h hfraction hrest
    generalize rest.dropWhile Char.isDigit = after at h hrest
    subst hrest
    split at h
    · cases h
    · rename_i hnonempty
      obtain ⟨n, hexponent, -⟩ := Option.bind_eq_some_iff.1 h
      refine ⟨whole ++ '.' :: fraction, after, ?_, isExponent_of_value? hexponent, by simp⟩
      cases whole with
      | nil => exact .fraction (by simpa using hnonempty) hfraction
      | cons c whole => exact .plain (.decimal (List.cons_ne_nil c whole) hwhole hfraction)
  · split at h
    · cases h
    · rename_i hnonempty
      obtain ⟨n, hexponent, -⟩ := Option.bind_eq_some_iff.1 h
      exact ⟨whole, after, .plain (.whole (by simpa using hnonempty) hwhole),
        isExponent_of_value? hexponent, rfl⟩

/-- All that a numeral with a value is written with. -/
theorem mem_of_value? {x : Float} (h : value? cs = some x) :
    ∀ c ∈ cs, c.isDigit ∨ c ∈ ['.', 'e', 'E', '+', '-'] := by
  obtain ⟨mantissa, exponent, hmantissa, hexponent, rfl⟩ := numeral_of_value? h
  refine List.forall_mem_append.2 ⟨?_, ?_⟩
  · cases hmantissa with
    | plain h =>
      cases h with
      | whole _ hdigits => exact fun c hc => .inl (hdigits c hc)
      | decimal _ hwhole hfraction =>
        exact List.forall_mem_append.2 ⟨fun c hc => .inl (hwhole c hc),
          List.forall_mem_cons.2 ⟨.inr (by decide), fun c hc => .inl (hfraction c hc)⟩⟩
    | fraction _ hdigits =>
      exact List.forall_mem_cons.2 ⟨.inr (by decide), fun c hc => .inl (hdigits c hc)⟩
  · cases hexponent with
    | none => exact nofun
    | @mark c sign digits hmark hsign _ hdigits =>
      have hsigns : ∀ sign ∈ [[], ['+'], ['-']], ∀ c ∈ sign, c ∈ ['.', 'e', 'E', '+', '-'] := by
        decide
      refine List.forall_mem_cons.2 ⟨.inr ?_, List.forall_mem_append.2
        ⟨fun c hc => .inr (hsigns sign hsign c hc), fun c hc => .inl (hdigits c hc)⟩⟩
      have hmarks : c = 'e' ∨ c = 'E' := by simpa [isExponentMark] using hmark
      rcases hmarks with rfl | rfl <;> decide

theorem IsMantissa.splitMantissa? (h : IsMantissa cs) (hdigit : Stops isDecimalDigit rest)
    (hpoint : Stops (· = '.') rest) : splitMantissa? (cs ++ rest) = some (cs, rest) := by
  cases h with
  | plain h => exact h.splitMantissa? hdigit hpoint
  | @fraction fraction hne hdigits =>
    obtain ⟨d, ds, rfl⟩ := List.exists_cons_of_ne_nil hne
    have hwhole : splitDigits ('.' :: (d :: ds ++ rest)) = ([], '.' :: (d :: ds ++ rest)) := rfl
    have hrun := splitDigits_append hdigits hdigit
    rw [List.cons_append] at hrun hwhole
    rw [List.cons_append, List.cons_append, Numeral.splitMantissa?, hwhole]
    simp [hrun]

theorem IsExponent.stops (h : IsExponent cs) (hrest : Stops goesOn rest) :
    Stops isDecimalDigit (cs ++ rest) ∧ Stops (· = '.') (cs ++ rest) := by
  obtain ⟨hdigit, hpoint, -⟩ := stops_of_goesOn hrest
  cases h with
  | none => exact ⟨hdigit, hpoint⟩
  | @mark c sign digits hmark =>
    have hmarks : ∀ c ∈ ['e', 'E'], isDecimalDigit c = false ∧ c ≠ '.' := by decide
    obtain ⟨hno, hne⟩ := hmarks c (by simpa [isExponentMark] using hmark)
    exact ⟨stops_cons.2 hno, stops_cons.2 (by simpa using hne)⟩

theorem IsExponent.splitExponent (h : IsExponent cs) (hrest : Stops goesOn rest) :
    splitExponent (cs ++ rest) = (cs, rest) := by
  obtain ⟨hdigit, -, hmark⟩ := stops_of_goesOn hrest
  cases h with
  | none => exact splitExponent_of_stops hmark
  | @mark c sign digits hmark hsign hne hdigits =>
    obtain ⟨d, ds, rfl⟩ := List.exists_cons_of_ne_nil hne
    have hd := hdigits d List.mem_cons_self
    have hplus : d ≠ '+' := by
      rintro rfl
      cases hd
    have hminus : d ≠ '-' := by
      rintro rfl
      cases hd
    have hsplit : splitSign (sign ++ d :: (ds ++ rest)) = (sign, d :: (ds ++ rest)) := by
      simp only [List.mem_cons, List.not_mem_nil, or_false] at hsign
      rcases hsign with rfl | rfl | rfl
      · simp [splitSign, hplus, hminus]
      · rfl
      · rfl
    have hrun := splitDigits_append hdigits hdigit
    rw [List.cons_append] at hrun
    simp [Numeral.splitExponent, hmark, hsplit, hrun]

/-- A numeral that has a value is read as a whole. -/
theorem split?_of_value? {x : Float} (h : value? cs = some x) (hrest : Stops goesOn rest) :
    split? (cs ++ rest) = some (cs, rest) := by
  obtain ⟨mantissa, exponent, hmantissa, hexponent, rfl⟩ := numeral_of_value? h
  obtain ⟨hdigit, hpoint⟩ := hexponent.stops hrest
  simp [Numeral.split?, hmantissa.splitMantissa? hdigit hpoint, hexponent.splitExponent hrest]

end Number.Numeral

end Worksheet
