import Worksheet.Proofs.Text.Group
import Worksheet.Proofs.Token.Decorations
import Worksheet.Proofs.Token.Faults
/-!
# Looking ahead

What is cut off the beginning of a text depends on the text behind it only as far as that goes on
with it. So one text may take the place of another one behind a piece that can be read, if neither
of them goes on with anything; only a bare word looks further, for the parenthesis of a call.
-/

namespace Worksheet

open Text

namespace Scan

/-- Characters that end whatever is before them. -/
def separators : List Char := [' ', '\\', '(', ')', '[', ']', ',']

/-- A text that ends what is before it. -/
def Breaks (r : List Char) : Prop := ∀ c ∈ r.head?, c ∈ separators

/-- Nothing goes on in the text that is before it, not even with a prime. -/
structure Apart (r : List Char) : Prop where
  begins : Breaks r
  prime : ¬"\\prime".toList <+: r

variable {r r' xs : List Char}

theorem apart_nil : Apart [] := ⟨nofun, by decide⟩

theorem apart_cons {c : Char} (hc : c ∈ separators) (hne : c ≠ '\\') (cs : List Char) :
    Apart (c :: cs) where
  begins d hd := by
    cases hd
    exact hc
  prime h := hne (List.cons_prefix_cons.1 h).1.symm

theorem Breaks.stops (hr : Breaks r) {p : Char → Bool} (hp : ∀ c ∈ separators, p c = false) :
    Stops p r := fun c hc => hp c (hr c hc)

theorem Apart.stops (hr : Apart r) {p : Char → Bool} (hp : ∀ c ∈ separators, p c = false) :
    Stops p r := hr.begins.stops hp

/-! ## Numbers -/

section

open Number.Numeral

theorem Breaks.stops_digit (hr : Breaks r) : Stops isDecimalDigit r := hr.stops (by decide)

theorem splitDigits_append_breaks (hr : Breaks r) (xs : List Char) :
    splitDigits (xs ++ r) = ((splitDigits xs).1, (splitDigits xs).2 ++ r) := by
  rw [splitDigits, takeWhile_append_stops hr.stops_digit, dropWhile_append_stops hr.stops_digit]
  rfl

theorem splitMantissa?_append (hr : Breaks r) (xs : List Char) :
    splitMantissa? (xs ++ r) =
      (splitMantissa? xs).map fun (mantissa, rest) => (mantissa, rest ++ r) := by
  have hpoint : Stops (· = '.') r := hr.stops (by decide)
  unfold splitMantissa?
  rw [splitDigits_append_breaks hr]
  rcases splitDigits xs with ⟨whole, after⟩
  cases after with
  | nil =>
    cases r with
    | nil => cases whole <;> rfl
    | cons c r =>
      have hne : c ≠ '.' := by simpa using stops_cons.1 hpoint
      cases whole <;> simp [hne]
  | cons c after =>
    by_cases hc : c = '.'
    · subst hc
      have hdigits := splitDigits_append_breaks hr after
      cases whole with
      | nil =>
        simp only [List.cons_append, hdigits]
        rcases splitDigits after with ⟨fraction, rest⟩
        cases fraction <;> rfl
      | cons d whole => simp only [List.cons_append, hdigits, Option.map_some]
    · cases whole <;> simp [hc]

theorem splitSign_append (hr : Breaks r) (xs : List Char) :
    splitSign (xs ++ r) = ((splitSign xs).1, (splitSign xs).2 ++ r) := by
  cases xs with
  | cons c xs =>
    by_cases hplus : c = '+'
    · subst hplus
      rfl
    by_cases hminus : c = '-'
    · subst hminus
      rfl
    · simp [splitSign, hplus, hminus]
  | nil =>
    have hsigns : ∀ c ∈ separators, c ≠ '+' ∧ c ≠ '-' := by decide
    cases r with
    | nil => rfl
    | cons c r =>
      obtain ⟨hplus, hminus⟩ := hsigns c (hr c rfl)
      simp [splitSign, hplus, hminus]

theorem splitExponent_append (hr : Breaks r) (xs : List Char) :
    splitExponent (xs ++ r) = ((splitExponent xs).1, (splitExponent xs).2 ++ r) := by
  cases xs with
  | nil => exact splitExponent_of_stops (hr.stops (by decide))
  | cons c xs =>
    rw [List.cons_append]
    by_cases hmark : isExponentMark c
    · simp only [splitExponent, hmark, if_true, splitSign_append hr, splitDigits_append_breaks hr]
      rcases splitDigits (splitSign xs).2 with ⟨digits, rest⟩
      cases digits <;> rfl
    · simp [splitExponent, hmark]

theorem split?_append (hr : Breaks r) (xs : List Char) :
    split? (xs ++ r) = (split? xs).map fun (number, rest) => (number, rest ++ r) := by
  unfold split?
  rw [splitMantissa?_append hr]
  rcases splitMantissa? xs with _ | ⟨mantissa, rest⟩
  · rfl
  · simp [splitExponent_append hr]

theorem excess_append (hr : Breaks r) (xs : List Char) : excess (xs ++ r) = excess xs := by
  have hsigns : ∀ c ∈ separators, c ≠ '+' ∧ c ≠ '-' ∧ isLetter c = false := by decide
  rcases xs with _ | ⟨c, _ | ⟨d, xs⟩⟩
  · exact excess_of_stops (hr.stops (by decide))
  · cases r with
    | nil => rfl
    | cons d r =>
      obtain ⟨hplus, hminus, hletter⟩ := hsigns d (hr d rfl)
      by_cases hpoint : c = '.'
      · subst hpoint
        have hstops : Stops (fun c => c.isDigit || c = '.') (d :: r) := hr.stops (by decide)
        have htake := takeWhile_append_stops hstops []
        simpa [excess] using htake
      · simp [excess, hplus, hminus, hletter]
  · by_cases hpoint : c = '.'
    · subst hpoint
      have hstops : Stops (fun c => c.isDigit || c = '.') r := hr.stops (by decide)
      have htake := takeWhile_append_stops hstops (d :: xs)
      rw [List.cons_append] at htake
      simp only [List.cons_append, excess, htake]
    · simp [excess]

/-- A number is the same whatever is behind it. -/
theorem numberPiece_append_breaks (hr : Breaks r) (c : Char) (xs : List Char) :
    numberPiece c (xs ++ r) = numberPiece c xs := by
  unfold numberPiece
  rw [← List.cons_append, split?_append hr]
  rcases split? (c :: xs) with _ | ⟨number, rest⟩
  · rfl
  · simp [excess_append hr]

theorem startsNumber_append (hr : Breaks r) (c : Char) (xs : List Char) :
    startsNumber c (xs ++ r) = startsNumber c xs := by
  cases xs with
  | cons d xs => rfl
  | nil =>
    have hdigit : Stops Char.isDigit r := hr.stops (by decide)
    cases r with
    | nil => rfl
    | cons d r => simp [startsNumber, stops_cons.1 hdigit]

end

/-! ## Subscripts and primes -/

theorem decoration_isPrefix {cs ds : List Char} (h : decoration cs = .ok ds) : ds <+: cs := by
  unfold decoration at h
  split at h
  · split at h
    · rename_i body rest hbody
      cases h
      rw [← append_of_untilClosed hbody]
      have hgroup : body ++ ['\x7d'] <+: body ++ '\x7d' :: rest := ⟨rest, List.append_assoc _ _ _⟩
      exact List.cons_prefix_cons.2 ⟨rfl, List.cons_prefix_cons.2 ⟨rfl, hgroup⟩⟩
    · cases h
  · split at h
    · cases h
    · rename_i cs _ _
      cases h
      exact List.cons_prefix_cons.2 ⟨rfl, List.cons_prefix_cons.2 ⟨rfl, List.takeWhile_prefix _⟩⟩
  · split at h
    · cases h
    · cases h
      exact List.cons_prefix_cons.2 ⟨rfl, List.takeWhile_prefix _⟩
  · cases h
    exact ⟨_, rfl⟩
  · dsimp only at h
    split at h
    · rename_i hbraced
      cases h
      exact List.isPrefixOf_iff_prefix.1 hbraced
    split at h
    · rename_i hbare
      cases h
      exact List.isPrefixOf_iff_prefix.1 hbare
    · cases h
      exact List.nil_prefix

/-- Wherever the mark is cut, the second part does not begin what is apart. -/
def Solid (mark : List Char) : Prop :=
  ∀ cut ∈ mark.tails, cut = [] ∨ cut.head?.all (· ∉ separators) ∨ "\\prime".toList <+: cut

instance : DecidablePred Solid := fun mark =>
  inferInstanceAs (Decidable (∀ cut ∈ mark.tails,
    cut = [] ∨ cut.head?.all (· ∉ separators) ∨ "\\prime".toList <+: cut))

theorem Apart.isPrefix_append (hr : Apart r) {mark : List Char} (hmark : Solid mark) :
    mark <+: xs ++ r ↔ mark <+: xs := by
  refine ⟨fun h => ?_, fun h => h.trans (List.prefix_append xs r)⟩
  obtain ⟨after, hafter⟩ := h
  rcases List.append_eq_append_iff.1 hafter with ⟨more, hxs, -⟩ | ⟨cut, hcut, hrest⟩
  · exact ⟨more, hxs.symm⟩
  · rcases hmark cut ((List.mem_tails _ _).2 ⟨xs, hcut.symm⟩) with rfl | hhead | hprime
    · rw [hcut, List.append_nil]
    · cases cut with
      | nil => rw [hcut, List.append_nil]
      | cons d cut =>
        exact absurd (hr.begins d (by rw [hrest]; rfl)) (of_decide_eq_true hhead)
    · exact absurd (hprime.trans ⟨after, hrest.symm⟩) hr.prime

theorem decoration_apart (hr : Apart r) : decoration r = .ok [] := by
  have hmarks : ∀ c ∈ separators, c ≠ '_' ∧ c ≠ '\'' ∧ c ≠ '^' := by decide
  cases r with
  | nil => rfl
  | cons c r =>
    obtain ⟨hsub, hprime, hraise⟩ := hmarks c (hr.begins c rfl)
    have hne : ('^' == c) = false := beq_false_of_ne (Ne.symm hraise)
    simp [decoration, hsub, hprime, List.isPrefixOf, hne]

theorem two_le_of_subscript {cs ds : List Char} (h : decoration ('_' :: cs) = .ok ds) :
    2 ≤ ds.length := by
  unfold decoration at h
  split at h
  · split at h
    · cases h
      simp
    · cases h
  · split at h
    · cases h
    · cases h
      simp
  · rename_i heq
    cases heq
    split at h
    · cases h
    · rename_i hne
      cases h
      exact Nat.succ_le_succ (List.length_pos_iff.2 hne)
  · rename_i heq
    cases heq
  · rename_i hnone _
    exact absurd rfl (hnone cs)

/-- A subscript in a group ends at its brace, and does not depend on what is behind that. -/
theorem decoration_group_swap {ds : List Char} (r' : List Char)
    (h : decoration ('_' :: '\x7b' :: (xs ++ r)) = .ok ds) (hlen : ds.length ≤ xs.length + 2) :
    decoration ('_' :: '\x7b' :: (xs ++ r')) = .ok ds := by
  rw [decoration] at h ⊢
  split at h
  · rename_i body rest hbody
    cases h
    have hfront : body ++ ['\x7d'] <+: xs := by
      refine List.prefix_of_prefix_length_le ⟨rest, ?_⟩ (List.prefix_append xs r) ?_
      · rw [← append_of_untilClosed hbody, List.append_assoc]
        rfl
      · simpa using hlen
    obtain ⟨ys, rfl⟩ := hfront
    rw [List.append_assoc, List.append_assoc, List.singleton_append, untilClosed_body hbody]
  · cases h

/-- A subscript or a prime that ends before what is apart does not depend on it. -/
theorem decoration_swap (hr : Apart r) (hr' : Apart r') {ds : List Char}
    (h : decoration (xs ++ r) = .ok ds) (hlen : ds.length ≤ xs.length) :
    decoration (xs ++ r') = .ok ds := by
  have htake : ∀ {p : Char → Bool}, (∀ c ∈ separators, p c = false) → ∀ cs : List Char,
      (cs ++ r').takeWhile p = (cs ++ r).takeWhile p := fun hp cs => by
    rw [takeWhile_append_stops (hr.stops hp), takeWhile_append_stops (hr'.stops hp)]
  have hbegins : ∀ {mark : List Char}, Solid mark →
      mark.isPrefixOf (xs ++ r') = mark.isPrefixOf (xs ++ r) := fun hmark => by
    rw [Bool.eq_iff_iff, List.isPrefixOf_iff_prefix, List.isPrefixOf_iff_prefix,
      hr.isPrefix_append hmark, hr'.isPrefix_append hmark]
  rcases xs with _ | ⟨c, xs⟩
  · rw [List.nil_append, decoration_apart hr] at h
    rw [List.nil_append, decoration_apart hr', h]
  by_cases hsub : c = '_'
  · subst hsub
    rcases xs with _ | ⟨d, xs⟩
    · exact absurd (two_le_of_subscript h) (Nat.not_le_of_lt (Nat.lt_succ_of_le hlen))
    by_cases hopen : d = '\x7b'
    · subst hopen
      exact decoration_group_swap r' h hlen
    by_cases hslash : d = '\\'
    · subst hslash
      change decoration ('_' :: '\\' :: (xs ++ r)) = .ok ds at h
      change decoration ('_' :: '\\' :: (xs ++ r')) = .ok ds
      rw [decoration] at h ⊢
      rwa [htake (by decide)]
    · have hends : ∀ c ∈ separators, isLetterOrNumber c = false := by decide
      have hrun := htake hends (d :: xs)
      rw [List.cons_append, List.cons_append] at hrun
      change decoration ('_' :: d :: (xs ++ r)) = .ok ds at h
      change decoration ('_' :: d :: (xs ++ r')) = .ok ds
      rw [decoration.eq_3 _ (by simp [hopen]) (by simp [hslash])] at h ⊢
      rwa [hrun]
  by_cases hprime : c = '\''
  · subst hprime
    exact h
  · rw [List.cons_append] at h ⊢
    have hbraced := hbegins (show Solid "^\x7b\\prime\x7d".toList by decide)
    have hbare := hbegins (show Solid "^\\prime".toList by decide)
    rw [List.cons_append, List.cons_append] at hbraced hbare
    rw [decoration.eq_5 _ (by simp [hsub]) (by simp [hsub]) (by simp [hsub])
      (by simp [hprime])] at h ⊢
    rwa [hbraced, hbare]

/-- The induction is on what is before; a count goes no further than that. -/
theorem decorationsFrom_swap (hr : Apart r) (hr' : Apart r') {n : Nat} {more : List Char}
    (h : decorationsFrom n (xs ++ r) = .ok more) (hlen : more.length ≤ xs.length)
    (hn : n ≤ xs.length) : decorationsFrom n (xs ++ r') = .ok more := by
  induction xs generalizing n more with
  | nil =>
    obtain rfl : n = 0 := Nat.le_zero.1 hn
    obtain rfl : more = [] := List.length_eq_zero_iff.1 (Nat.le_zero.1 hlen)
    rw [List.nil_append]
    cases r' with
    | nil => rfl
    | cons c r' => rw [decorationsFrom, decoration_apart hr']
  | cons c xs ih =>
    rw [List.cons_append] at h ⊢
    cases n with
    | succ n =>
      obtain ⟨ds, hds, rfl⟩ := following_eq_ok h
      rw [decorationsFrom, ih hds (Nat.le_of_succ_le_succ hlen) (Nat.le_of_succ_le_succ hn)]
      rfl
    | zero =>
      rw [decorationsFrom] at h ⊢
      cases hfirst : decoration (c :: (xs ++ r)) with
      | error fault =>
        rw [hfirst] at h
        cases h
      | ok first =>
        rw [hfirst] at h
        have hprefix := decoration_isPrefix hfirst
        cases first with
        | nil =>
          cases h
          have hnone := @decoration_swap r r' (c :: xs) hr hr' [] hfirst (Nat.zero_le _)
          rw [List.cons_append] at hnone
          rw [hnone]
        | cons d first =>
          obtain ⟨ds, hds, rfl⟩ := following_eq_ok h
          obtain ⟨-, rest, hrest⟩ := List.cons_prefix_cons.1 hprefix
          rw [← hrest] at hds
          obtain ⟨es, -, rfl⟩ := decorationsFrom_append hds
          rw [hrest] at hds
          have hle : first.length ≤ xs.length := by
            rw [List.length_cons, List.length_cons, List.length_append] at hlen
            omega
          have hsome := @decoration_swap r r' (c :: xs) hr hr' _ hfirst (Nat.succ_le_succ hle)
          rw [List.cons_append] at hsome
          rw [hsome]
          dsimp only
          rw [ih hds (Nat.le_of_succ_le_succ hlen) hle]
          rfl

theorem decorate_swap (hr : Apart r) (hr' : Apart r') {base name : List Char}
    (h : decorate base (xs ++ r) = .ok name) (hlen : name.length ≤ base.length + xs.length) :
    decorate base (xs ++ r') = .ok name := by
  obtain ⟨more, hmore, rfl⟩ := decorate_eq_ok h
  rw [List.length_append] at hlen
  rw [decorate, decorationsFrom_swap hr hr' hmore (by omega) (Nat.zero_le _), foldr_following]

/-! ## Groups -/

theorem argument_swap {code : ErrorCode} {command text body : List Char}
    (h : argument code command (xs ++ r) = .ok (text, body))
    (hlen : text.length ≤ command.length + xs.length) :
    argument code command (xs ++ r') = .ok (text, body) := by
  obtain ⟨front, after, hrest, rfl, hargument⟩ := argument_eq_ok h
  rw [List.length_append] at hlen
  obtain ⟨ys, rfl⟩ : front <+: xs :=
    List.prefix_of_prefix_length_le ⟨after, hrest.symm⟩ (List.prefix_append xs r) (by omega)
  rw [List.append_assoc]
  exact hargument (ys ++ r')

/-! ## Pieces -/

/-- A piece that can be read and is no longer than so many characters stays. -/
def Kept (size : Nat) (next next' : Piece × Nat) : Prop :=
  (∀ fault, next.1.meaning ≠ .misread fault) → next.1.text.length ≤ size → next' = next

theorem kept_rfl {size : Nat} (next : Piece × Nat) : Kept size next next := fun _ _ => rfl

theorem kept_ite {size : Nat} {p : Prop} [Decidable p] {a a' b b' : Piece × Nat}
    (ha : p → Kept size a a') (hb : ¬p → Kept size b b') :
    Kept size (if p then a else b) (if p then a' else b') := by
  by_cases h : p
  · rw [if_pos h, if_pos h]
    exact ha h
  · rw [if_neg h, if_neg h]
    exact hb h

theorem kept_of_misread {size : Nat} {next next' : Piece × Nat} {fault : Misread}
    (h : next.1.meaning = .misread fault) : Kept size next next' := fun hread _ =>
  absurd h (hread fault)

theorem argument_kept (r r' : List Char) (code : ErrorCode) (command xs : List Char) :
    (∃ piece fault, argument code command (xs ++ r) = .error piece ∧
        piece.meaning = .misread fault) ∨
      ∃ text body, argument code command (xs ++ r) = .ok (text, body) ∧
        (text.length ≤ command.length + xs.length →
          argument code command (xs ++ r') = .ok (text, body)) := by
  cases h : argument code command (xs ++ r) with
  | error piece =>
    obtain ⟨front, -, rfl⟩ := argument_eq_error h
    exact .inl ⟨_, _, rfl, rfl⟩
  | ok a => exact .inr ⟨a.1, a.2, rfl, argument_swap h⟩

theorem kept_environmentPiece (r r' : List Char) (depth : Nat) (opens : Bool)
    (command xs : List Char) :
    Kept (command.length + xs.length) (environmentPiece depth opens command (xs ++ r))
      (environmentPiece depth opens command (xs ++ r')) := by
  unfold environmentPiece
  rcases argument_kept r r' .unclosedGroup command xs with
    ⟨piece, fault, h, hfault⟩ | ⟨text, body, h, hkept⟩
  · rw [h]
    exact kept_of_misread hfault
  · rw [h]
    intro _ hlen
    rw [hkept (by dsimp only at hlen; split at hlen <;> [split at hlen; skip] <;> exact hlen)]

theorem kept_commandPiece (hr : Apart r) (hr' : Apart r') (depth : Nat) (letters xs : List Char) :
    Kept (letters.length + 1 + xs.length) (commandPiece depth letters (xs ++ r))
      (commandPiece depth letters (xs ++ r')) := by
  have hpoint : ∀ {r : List Char}, Apart r → r.head? ≠ some '.' := fun hr hhead =>
    absurd (hr.begins '.' hhead) (by decide)
  unfold commandPiece
  refine kept_ite (fun _ => ?_) fun _ => ?_
  · rcases argument_kept r r' .unclosedUnit ('\\' :: letters) xs with
      ⟨piece, fault, h, hfault⟩ | ⟨text, body, h, hkept⟩
    · rw [h]
      exact kept_of_misread hfault
    · rw [h]
      intro _ hlen
      rw [hkept hlen]
  refine kept_ite (fun _ => ?_) fun _ => ?_
  · cases xs with
    | nil =>
      rw [List.nil_append, List.nil_append]
      split
      · exact absurd rfl (hpoint hr)
      · split
        · exact absurd rfl (hpoint hr')
        · exact kept_rfl _
    | cons c xs =>
      by_cases hc : c = '.'
      · subst hc
        exact kept_rfl _
      · simp [hc, kept_rfl]
  refine kept_ite (fun _ => kept_rfl _) fun _ => ?_
  refine kept_ite (fun _ => ?_) fun _ => ?_
  · cases h : decorate ('\\' :: letters) (xs ++ r) with
    | error fault => exact kept_of_misread rfl
    | ok name =>
      intro _ hlen
      rw [decorate_swap hr hr' h hlen]
  refine kept_ite (fun _ => kept_rfl _) fun _ => ?_
  refine kept_ite (fun _ => kept_rfl _) fun _ => ?_
  refine kept_ite (fun _ => kept_rfl _) fun _ => ?_
  refine kept_ite (fun _ => kept_rfl _) fun _ => ?_
  refine kept_ite (fun _ => ?_) fun _ => ?_
  · rcases argument_kept r r' .unclosedGroup ('\\' :: letters) xs with
      ⟨piece, fault, h, hfault⟩ | ⟨text, body, h, hkept⟩
    · rw [h]
      exact kept_of_misread hfault
    · rw [h]
      intro _ hlen
      rw [hkept hlen]
  refine kept_ite (fun _ => kept_environmentPiece r r' depth true _ xs) fun _ => ?_
  refine kept_ite (fun _ => kept_environmentPiece r r' depth false _ xs) fun _ => ?_
  exact kept_rfl _

/-- A word without subscripts and primes. -/
def IsBareWord : List Char → Prop
  | [] => False
  | c :: cs => startsName .equation c ∧ ∀ d ∈ cs, continuesName .equation d

/-- A bare word that stands for a unit, with nothing but blanks behind it. -/
def EndsUnitWord (rules : ScanRules) (cs : List Char) : Prop :=
  ∃ word gap, cs = word ++ gap ∧ IsBareWord word ∧ rules.isUnitWord (String.ofList word) ∧
    ∀ c ∈ gap, isBlank c

/-- Where no word stands for a unit there is none. -/
theorem not_endsUnitWord (cs : List Char) : ¬EndsUnitWord { mode := .equation } cs := by
  rintro ⟨_, _, -, -, hunit, -⟩
  cases hunit

theorem isCalled_append {gap : List Char} (hgap : ∀ c ∈ gap, isBlank c) (r : List Char) :
    isCalled (gap ++ r) = isCalled r := by
  rw [isCalled, isCalled, trimStart, trimStart, List.dropWhile_append_of_pos hgap]

theorem isCalled_append_of_not {xs : List Char} (h : ¬∀ c ∈ xs, isBlank c) (r : List Char) :
    isCalled (xs ++ r) = isCalled xs := by
  obtain ⟨c, hc⟩ : ∃ c, xs.dropWhile isBlank = c :: (xs.dropWhile isBlank).tail := by
    cases hdrop : xs.dropWhile isBlank with
    | nil =>
      have hsplit := @List.takeWhile_append_dropWhile _ isBlank xs
      rw [hdrop, List.append_nil] at hsplit
      refine absurd ?_ h
      rw [← hsplit]
      exact List.all_eq_true.1 List.all_takeWhile
    | cons c cs => exact ⟨c, rfl⟩
  rw [isCalled, isCalled, trimStart, trimStart, List.dropWhile_append, hc]
  rfl

theorem kept_namePiece {rules : ScanRules} (hr : Apart r) (hr' : Apart r') (depth : Nat) (c : Char)
    (xs : List Char) (hstart : startsName rules.mode c)
    (hcalled : rules.mode = .equation → EndsUnitWord rules (c :: xs) → isCalled r = isCalled r') :
    Kept (xs.length + 1) (namePiece rules c (xs ++ r), depth)
      (namePiece rules c (xs ++ r'), depth) := by
  have hcontinues : ∀ d ∈ separators, continuesName rules.mode d = false := by
    cases rules.mode <;> decide
  unfold namePiece
  rw [takeWhile_append_stops (hr.stops hcontinues), dropWhile_append_stops (hr.stops hcontinues),
    takeWhile_append_stops (hr'.stops hcontinues), dropWhile_append_stops (hr'.stops hcontinues)]
  have hsplit : xs.takeWhile (continuesName rules.mode) ++ xs.dropWhile (continuesName rules.mode) =
      xs := List.takeWhile_append_dropWhile
  have hrun : ∀ d ∈ xs.takeWhile (continuesName rules.mode), continuesName rules.mode d :=
    List.all_eq_true.1 List.all_takeWhile
  generalize xs.takeWhile (continuesName rules.mode) = run at hsplit hrun ⊢
  generalize xs.dropWhile (continuesName rules.mode) = after at hsplit ⊢
  subst hsplit
  dsimp only
  split
  · exact kept_rfl _
  · rename_i hmode
    rw [hmode] at hstart hrun
    cases h : decorate (c :: run) (after ++ r) with
    | error fault => exact kept_of_misread rfl
    | ok name =>
      intro _ hlen
      have htext : name.length ≤ (c :: run).length + after.length := by
        rw [List.length_append] at hlen
        dsimp only at hlen
        split at hlen
        · rename_i hbare
          rw [hbare.1]
          exact Nat.le_add_right _ _
        · rw [List.length_cons]
          change name.length ≤ _ at hlen
          omega
      have hsame : rules.isUnitWord (String.ofList (c :: run)) →
          isCalled (after ++ r) = isCalled (after ++ r') := by
        intro hunit
        by_cases hblank : ∀ d ∈ after, isBlank d
        · rw [isCalled_append hblank, isCalled_append hblank]
          exact hcalled hmode ⟨c :: run, after, rfl, ⟨hstart, hrun⟩, hunit, hblank⟩
        · rw [isCalled_append_of_not hblank, isCalled_append_of_not hblank]
      rw [decorate_swap hr hr' h htext]
      dsimp only
      by_cases hunit : rules.isUnitWord (String.ofList (c :: run))
      · rw [hsame hunit]
      · rw [Bool.not_eq_true] at hunit
        simp only [hunit, Bool.false_eq_true, false_and, and_false, if_false]

theorem signPiece_text (mode : Mode) (depth : Nat) (c : Char) :
    (signPiece mode depth c).text = ['\\', c] := by
  fun_cases signPiece <;> rfl

/-- A piece that can be read does not depend on what is apart from it, unless it is a word that may
be called. -/
theorem kept_nextPiece {rules : ScanRules} (hr : Apart r) (hr' : Apart r') (depth : Nat) (c : Char)
    (xs : List Char)
    (hcalled : rules.mode = .equation → EndsUnitWord rules (c :: xs) → isCalled r = isCalled r') :
    Kept (xs.length + 1) (nextPiece rules depth c (xs ++ r))
      (nextPiece rules depth c (xs ++ r')) := by
  have halpha : ∀ d ∈ separators, d.isAlpha = false := by decide
  rw [nextPiece.eq_def, nextPiece.eq_def rules depth c (xs ++ r')]
  refine kept_ite (fun hslash => ?_) fun _ => ?_
  · cases xs with
    | nil =>
      cases r with
      | nil => exact kept_of_misread rfl
      | cons d r =>
        have hd : d.isAlpha = false := stops_cons.1 (hr.stops halpha)
        intro _ hlen
        dsimp only [List.nil_append] at hlen
        rw [hd, if_neg (by decide), signPiece_text] at hlen
        exact absurd hlen (Nat.not_succ_le_self 1)
    | cons d xs =>
      rw [List.cons_append, List.cons_append]
      dsimp only
      refine kept_ite (fun _ => ?_) fun _ => kept_rfl _
      rw [takeWhile_append_stops (hr.stops halpha), dropWhile_append_stops (hr.stops halpha),
        takeWhile_append_stops (hr'.stops halpha), dropWhile_append_stops (hr'.stops halpha)]
      have hkept := kept_commandPiece hr hr' depth (d :: xs.takeWhile Char.isAlpha)
        (xs.dropWhile Char.isAlpha)
      have hsize := congrArg List.length (@List.takeWhile_append_dropWhile _ Char.isAlpha xs)
      rw [List.length_append] at hsize
      rw [List.length_cons, show (xs.takeWhile Char.isAlpha).length + 1 + 1 +
        (xs.dropWhile Char.isAlpha).length = xs.length + 1 + 1 by omega] at hkept
      exact hkept
  · cases sign? c with
    | some kind => exact kept_rfl _
    | none =>
      dsimp only
      rw [startsNumber_append hr.begins, startsNumber_append hr'.begins,
        numberPiece_append_breaks hr.begins, numberPiece_append_breaks hr'.begins]
      by_cases hstart : startsName rules.mode c
      · have hkept := kept_namePiece hr hr' depth c xs hstart hcalled
        simp only [hstart, if_true]
        split
        · exact kept_rfl _
        split
        · exact kept_rfl _
        split
        · exact kept_rfl _
        split
        · exact kept_rfl _
        · exact hkept
      · simp only [hstart]
        exact kept_rfl _

/-- A piece that can be read is the same before what is apart and makes no call. -/
theorem nextPiece_append {rules : ScanRules} (hr : Apart r) {depth depth' : Nat} {c : Char}
    {cs text : List Char} {meaning : Meaning}
    (hcalled : rules.mode = .equation → EndsUnitWord rules (c :: cs) → isCalled r = false)
    (next : nextPiece rules depth c cs = (⟨text, meaning⟩, depth'))
    (hread : ∀ fault, meaning ≠ .misread fault) :
    nextPiece rules depth c (cs ++ r) = (⟨text, meaning⟩, depth') ∧
      (cs ++ r).drop (text.length - 1) = cs.drop (text.length - 1) ++ r := by
  have hfront := (nextPiece_begins rules depth c cs).front.length_le
  have hkept := @kept_nextPiece [] r rules apart_nil hr depth c cs fun hmode hword =>
    (hcalled hmode hword).symm
  rw [List.append_nil, next] at hkept
  rw [next, List.length_cons] at hfront
  dsimp only at hfront
  exact ⟨hkept hread hfront, List.drop_append_of_le_length (by omega)⟩

/-- How many matrices are open behind a text, if so many are open before it. -/
inductive Leaves (rules : ScanRules) : Nat → List Char → Nat → Prop where
  | done {depth : Nat} : Leaves rules depth [] depth
  | piece {depth depth' depth'' : Nat} {c : Char} {cs : List Char} {piece : Piece}
      (next : nextPiece rules depth c cs = (piece, depth'))
      (others : Leaves rules depth' (cs.drop (piece.text.length - 1)) depth'') :
      Leaves rules depth (c :: cs) depth''

/-- A text that can be read is read as the same before what is apart and makes no call. -/
theorem Scans.append_leaves {rules : ScanRules} {depth : Nat} {cs : List Char}
    {ks ks' : List Token.Kind} (h : Scans rules depth cs ks) (hr : Apart r)
    (hcalled : isCalled r = false)
    (hothers : ∀ depth', Leaves rules depth cs depth' → Scans rules depth' r ks') :
    Scans rules depth (cs ++ r) (ks ++ ks') := by
  induction h with
  | done => exact hothers _ .done
  | token next others ih =>
    obtain ⟨next', hdrop⟩ := nextPiece_append hr (fun _ _ => hcalled) next nofun
    have hscans := ih fun depth' hleaves => hothers depth' (.piece next hleaves)
    rw [← hdrop] at hscans
    exact .token next' hscans
  | layout next others ih =>
    obtain ⟨next', hdrop⟩ := nextPiece_append hr (fun _ _ => hcalled) next nofun
    have hscans := ih fun depth' hleaves => hothers depth' (.piece next hleaves)
    rw [← hdrop] at hscans
    exact .layout next' hscans

theorem Scans.append_apart {rules : ScanRules} {depth : Nat} {cs : List Char}
    {ks ks' : List Token.Kind} (h : Scans rules depth cs ks) (hr : Apart r)
    (hcalled : isCalled r = false) (hothers : ∀ depth, Scans rules depth r ks') :
    Scans rules depth (cs ++ r) (ks ++ ks') :=
  h.append_leaves hr hcalled fun depth _ => hothers depth

end Scan

end Worksheet
