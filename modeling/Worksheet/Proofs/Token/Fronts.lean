import Worksheet.Proofs.Token.Numbers
/-!
# Tokens in front of a text

What is cut off in front of a text, whatever the text says. A digit in front of it is a number of
its own unless the text goes on with the number.
-/

namespace Worksheet

open Text Number

namespace Scan

open Numeral

variable {rules : ScanRules} {front middle rest cs : List Char} {ks ks' : List Token.Kind}
  {c : Char}

/-! ## What a number takes of the text behind it -/

/-- A point, or the mark of an exponent that is not the beginning of a word. -/
def goesOnNumber : List Char → Bool
  | [] => false
  | c :: cs => c = '.' || (isExponentMark c && !cs.head?.any isLetter)

theorem excess_eq_nil_iff : excess cs = [] ↔ goesOnNumber cs = false := by
  have hsigns : isLetter '+' = false ∧ isLetter '-' = false := by decide
  fun_cases excess cs with
  | case3 c hpoint hmark d ds hsign =>
    rcases (by simpa using hsign) with rfl | rfl <;> simp_all [goesOnNumber]
  | _ => simp_all [goesOnNumber]

theorem excess_of_isDigit (hc : c.isDigit) (cs : List Char) : excess (c :: cs) = [] := by
  have hne : ∀ d ∈ ['.', 'e', 'E'], c ≠ d := by
    rintro d hd rfl
    simp only [List.mem_cons, List.not_mem_nil, or_false] at hd
    rcases hd with rfl | rfl | rfl <;> exact absurd hc (by decide)
  rw [excess_eq_nil_iff]
  simp [goesOnNumber, isExponentMark, hne]

/-- The mark of an exponent before a letter begins no exponent. -/
theorem splitExponent_of_excess (h : excess rest = []) : splitExponent rest = ([], rest) := by
  cases rest with
  | nil => rfl
  | cons c cs =>
    rw [excess_eq_nil_iff, goesOnNumber, Bool.or_eq_false_iff] at h
    cases hmark : isExponentMark c with
    | false => exact splitExponent_of_stops (stops_cons.2 hmark)
    | true =>
      obtain ⟨d, ds, rfl, hd⟩ : ∃ d ds, cs = d :: ds ∧ isLetter d := by
        cases cs with
        | nil => simp [hmark] at h
        | cons d ds => exact ⟨d, ds, rfl, by simpa [hmark] using h.2⟩
      have hsign : splitSign (d :: ds) = ([], d :: ds) := by
        unfold splitSign
        split
        · rename_i heq
          cases heq
          exact absurd hd (by decide)
        · rename_i heq
          cases heq
          exact absurd hd (by decide)
        · rfl
      have hdigit : isDecimalDigit d = false := by
        rw [Bool.eq_false_iff]
        intro hdigit
        rw [isLetter_of_isDecimalDigit hdigit] at hd
        cases hd
      simp [splitExponent, hmark, hsign, splitDigits, hdigit]

/-- A digit before a text that does not go on with it is a number. -/
theorem split?_digit (hc : isDecimalDigit c) (hdigit : Stops isDecimalDigit rest)
    (hexcess : excess rest = []) : split? (c :: rest) = some ([c], rest) := by
  have hdigits : splitDigits rest = ([], rest) := by
    rw [splitDigits, dropWhile_of_stops hdigit]
    simpa using takeWhile_append_stops hdigit []
  have hmantissa : splitMantissa? (c :: rest) = some ([c], rest) := by
    rw [splitMantissa?_digit hc, hdigits]
    split
    · rename_i h
      cases h
      cases hexcess
    · rfl
  simp [split?, hmantissa, splitExponent_of_excess hexcess]

/-! ## Tokens in front of a text -/

/-- The tokens of a text are those of its rest with tokens of these kinds before them. -/
def Leads (rules : ScanRules) (front rest : List Char) (ks : List Token.Kind) : Prop :=
  ∀ start, ∃ ts stop, ts.map Token.kind = ks ∧
    tokensFrom rules start 0 (front ++ rest) =
      (tokensFrom rules stop 0 rest >>= fun others => .ok (ts ++ others))

theorem leads_token {kind : Token.Kind}
    (next : nextPiece rules 0 c (cs ++ rest) = (.token (c :: cs) kind, 0)) :
    Leads rules (c :: cs) rest [kind] := fun start =>
  ⟨[⟨kind, start, start + byteSize (c :: cs)⟩], _, rfl, tokensFrom_token next start⟩

theorem Leads.append (h : Leads rules front (middle ++ rest) ks)
    (h' : Leads rules middle rest ks') : Leads rules (front ++ middle) rest (ks ++ ks') := by
  intro start
  obtain ⟨ts, stop, rfl, hfront⟩ := h start
  obtain ⟨ts', stop', rfl, hmiddle⟩ := h' stop
  refine ⟨ts ++ ts', stop', List.map_append, ?_⟩
  rw [List.append_assoc, hfront, hmiddle]
  cases tokensFrom rules stop' 0 rest with
  | error fault => rfl
  | ok others => simp

/-- The text cannot be cut into tokens, wherever it stands. -/
def Faulty (rules : ScanRules) (cs : List Char) : Prop :=
  ∀ start, ∃ fault, tokensFrom rules start 0 cs = .error fault

theorem faulty_wrong {text : List Char} {code : ErrorCode} {depth : Nat}
    (next : nextPiece rules 0 c cs = (.wrong text code, depth)) : Faulty rules (c :: cs) :=
  fun start => ⟨_, by rw [tokensFrom_cons, next]; rfl⟩

theorem Leads.faulty (h : Leads rules front rest ks) (hrest : Faulty rules rest) :
    Faulty rules (front ++ rest) := by
  intro start
  obtain ⟨ts, stop, -, hfront⟩ := h start
  obtain ⟨fault, hfault⟩ := hrest stop
  exact ⟨fault, by rw [hfront, hfault]; rfl⟩

theorem leads_sign {kind : Token.Kind} (h : sign? c = some kind) : Leads rules [c] rest [kind] := by
  have hc : c ≠ '\\' := by
    rintro rfl
    cases h
  refine leads_token ?_
  rw [nextPiece.eq_def, if_neg hc, List.nil_append, h]

theorem leads_number (hc : c.isDigit) (hsplit : split? (c :: cs ++ rest) = some (c :: cs, rest))
    (hexcess : excess rest = []) : Leads rules (c :: cs) rest [.num (String.ofList (c :: cs))] := by
  refine leads_token ?_
  rw [nextPiece_of_isDigit hc, numberPiece, ← List.cons_append, hsplit]
  simp [hexcess]

theorem faulty_number {number : List Char} (hc : c.isDigit)
    (hsplit : split? (c :: cs) = some (number, rest)) (hexcess : excess rest ≠ []) :
    Faulty rules (c :: cs) := by
  have next : nextPiece rules 0 c cs = (.wrong (number ++ excess rest) .malformedNumber, 0) := by
    rw [nextPiece_of_isDigit hc, numberPiece, hsplit]
    cases h : excess rest with
    | nil => exact absurd h hexcess
    | cons d ds => simp [h]
  exact faulty_wrong next

/-- The command for fractions. -/
def fracCommand : List Char := '\\' :: ['f', 'r', 'a', 'c']

theorem leads_frac (h : Stops Char.isAlpha rest) : Leads rules fracCommand rest [.frac] := by
  have next : nextPiece rules 0 '\\' (['f', 'r', 'a', 'c'] ++ rest) =
      (.token fracCommand .frac, 0) := by
    rw [nextPiece_command (by decide) (by decide) h]
    rfl
  exact leads_token next

/-- A digit in braces. -/
theorem leads_braces (hc : c.isDigit) :
    Leads rules ['\x7b', c, '\x7d'] rest [.lbrace, .num (String.ofList [c]), .rbrace] := by
  have hclose : Leads rules ['\x7d'] rest [.rbrace] := leads_sign rfl
  have hsplit : split? ([c] ++ '\x7d' :: rest) = some ([c], '\x7d' :: rest) :=
    split?_digit (isDecimalDigit_of_isDigit hc) (stops_cons.2 (by decide)) rfl
  have hdigit : Leads rules [c] ('\x7d' :: rest) [.num (String.ofList [c])] :=
    leads_number hc hsplit rfl
  have hopen : Leads rules ['\x7b'] ([c, '\x7d'] ++ rest) [.lbrace] := leads_sign rfl
  exact hopen.append (hdigit.append hclose)

end Scan

end Worksheet
