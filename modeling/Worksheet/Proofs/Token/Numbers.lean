import Worksheet.Proofs.Number.Numeral
import Worksheet.Proofs.Token.Scans
/-!
# Numbers as tokens

A numeral in plain digits is one token wherever it stands, and a whole number is one with at most a
sign before it.
-/

namespace Worksheet

open Text Number

namespace Scan

variable {rules : ScanRules} {depth : Nat} {cs rest : List Char} {ks : List Token.Kind}

theorem excess_of_stops (h : Stops Numeral.goesOn rest) : excess rest = [] := by
  obtain ⟨-, hpoint, hmark⟩ := Numeral.stops_of_goesOn h
  cases rest with
  | nil => rfl
  | cons c rest =>
    have hne : c ≠ '.' := by simpa using stops_cons.1 hpoint
    unfold excess
    split
    · rename_i heq
      cases heq
      exact absurd rfl hne
    · rename_i heq
      cases heq
      rw [stops_cons.1 hmark]
      rfl
    · rfl

/-- The characters that are scanned before numbers are thought of. -/
def signs : List Char :=
  ['\\', '+', '-', '\u2212', '*', '\u00b7', '\u00d7', '\u22c5', '/', '^', '(', ')', '[', ']', '\x7b',
    '\x7d', ',', '&', '%', '~']

theorem sign?_eq_none {c : Char} (h : c ∉ signs) : sign? c = none := by
  cases hsign : sign? c with
  | none => rfl
  | some kind =>
    refine absurd ?_ h
    unfold sign? at hsign
    split at hsign <;> first | decide | cases hsign

/-- A digit begins a number, unless it is one of another script: that cannot be read. -/
theorem nextPiece_of_isDecimalDigit {c : Char} (hc : isDecimalDigit c) :
    nextPiece rules depth c cs =
      (if c.isDigit then numberPiece c cs else .wrong [c] .unrecognizedToken, depth) := by
  have hne : ∀ d ∈ '.' :: '$' :: '°' :: 'µ' :: 'Ω' :: signs, c ≠ d := by
    have hall : ∀ d ∈ '.' :: '$' :: '°' :: 'µ' :: 'Ω' :: signs, isDecimalDigit d = false := by
      decide
    rintro d hd rfl
    rw [hall c hd] at hc
    cases hc
  have hsigns : c ∉ signs := fun hmem => hne c (by simp [hmem]) rfl
  have hname : startsName rules.mode c = false := by
    have hword := isWordStart_of_isDecimalDigit hc
    have hsign : isUnitSign c = false := by
      simp [isUnitSign, hne '$' (by simp), hne '°' (by simp), hne 'µ' (by simp), hne 'Ω' (by simp)]
    cases rules.mode with
    | equation => exact hword
    | units => rw [startsName, hword, hsign, Bool.or_false]
  rw [nextPiece.eq_def, if_neg (hne '\\' (by decide)), sign?_eq_none hsigns]
  simp [hne '&' (by decide), hne '%' (by decide), hne '~' (by decide), hne '.' (by simp),
    isBlank_of_isDecimalDigit hc, startsNumber, hname]

theorem nextPiece_of_isDigit {c : Char} (hc : c.isDigit) :
    nextPiece rules depth c cs = (numberPiece c cs, depth) := by
  rw [nextPiece_of_isDecimalDigit (isDecimalDigit_of_isDigit hc), if_pos hc]

theorem nextPiece_of_startsNumber {c : Char} (h : startsNumber c cs) :
    nextPiece rules depth c cs = (numberPiece c cs, depth) := by
  by_cases hc : c.isDigit
  · exact nextPiece_of_isDigit hc
  · have hpoint : c = '.' ∧ cs.head?.any Char.isDigit := by simpa [startsNumber, hc] using h
    obtain ⟨rfl, hdigit⟩ := hpoint
    rw [nextPiece.eq_def, if_neg (by decide), sign?_eq_none (by decide)]
    simp [isBlank, blanks, CharSet.contains, CharSet.containsCode, startsNumber, hdigit]

/-- What has a value begins like a number. -/
theorem startsNumber_of_value? {x : Float} (h : Numeral.value? cs = some x) (rest : List Char) :
    ∃ c more, cs = c :: more ∧ startsNumber c (more ++ rest) := by
  obtain ⟨mantissa, exponent, hmantissa, -, rfl⟩ := Numeral.numeral_of_value? h
  cases hmantissa with
  | plain hplain =>
    obtain ⟨d, ds, rfl, hd⟩ := hplain.begins
    exact ⟨d, ds ++ exponent, rfl, by simp [startsNumber, hd]⟩
  | @fraction fraction hne hdigits =>
    obtain ⟨d, ds, rfl⟩ := List.exists_cons_of_ne_nil hne
    have hd := hdigits d List.mem_cons_self
    exact ⟨'.', d :: ds ++ exponent, rfl, by simp [startsNumber, hd]⟩

/-- A numeral that has a value is a number. -/
theorem Scans.numeral {x : Float} (h : Numeral.value? cs = some x)
    (hrest : Stops Numeral.goesOn rest) (others : Scans rules depth rest ks) :
    Scans rules depth (cs ++ rest) (.num (String.ofList cs) :: ks) := by
  obtain ⟨c, more, rfl, hstarts⟩ := startsNumber_of_value? h rest
  have next : nextPiece rules depth c (more ++ rest) =
      (.token (c :: more) (.num (String.ofList (c :: more))), depth) := by
    have hsplit := Numeral.split?_of_value? h hrest
    rw [List.cons_append] at hsplit
    rw [nextPiece_of_startsNumber hstarts, numberPiece, hsplit]
    simp [excess_of_stops hrest]
  exact .token_append next others

theorem Scans.number (h : Numeral.IsPlain cs) (hrest : Stops Numeral.goesOn rest)
    (others : Scans rules depth rest ks) :
    Scans rules depth (cs ++ rest) (.num (String.ofList cs) :: ks) := by
  obtain ⟨x, hx⟩ := h.value?
  exact .numeral hx hrest others

theorem Scans.nat (n : Nat) (hrest : Stops Numeral.goesOn rest) (others : Scans rules depth rest ks) :
    Scans rules depth ((toString n).toList ++ rest) (.num (toString n) :: ks) := by
  have hnumber := Scans.number (Numeral.isPlain_toString n) hrest others
  rwa [String.ofList_toList] at hnumber

/-- The tokens of a whole number. -/
def intKinds : Int → List Token.Kind
  | .ofNat n => [.num (toString n)]
  | .negSucc n => [.minus, .num (toString (n + 1))]

theorem Scans.int (n : Int) (hrest : Stops Numeral.goesOn rest) (others : Scans rules depth rest ks) :
    Scans rules depth ((toString n).toList ++ rest) (intKinds n ++ ks) := by
  cases n with
  | ofNat n => exact .nat n hrest others
  | negSucc n =>
    rw [Numeral.toList_toString_negSucc]
    exact .sign rfl (.nat (n + 1) hrest others)

end Scan

end Worksheet
