import Worksheet.Proofs.Token.Layout
import Worksheet.Proofs.Token.Lookahead
import Worksheet.UnitTable.Basic
/-!
# Sizes of parentheses

A command for the size of a parenthesis changes nothing in the tokens before and behind it, except
that a word that stands for a unit is no longer seen to be called.
-/

namespace Worksheet

open Text

/-- The token that a piece is, if it is one. -/
def Meaning.tokens (meaning : Meaning) (start stop : Nat) : List Token :=
  match meaning with
  | .token kind => [⟨kind, start, stop⟩]
  | _ => []

/-- Tokens from a position on are moved by so many bytes. -/
def Token.movedFrom (position n : Nat) (t : Token) : Token :=
  if position ≤ t.start then t.shift n else t

theorem Token.movedFrom_kind (position n : Nat) (t : Token) :
    (t.movedFrom position n).kind = t.kind := by
  unfold movedFrom
  split <;> rfl

theorem Spread.le_start {lo hi : Nat} {ts : List Token} (h : Spread lo hi ts) {t : Token}
    (ht : t ∈ ts) : lo ≤ t.start := by
  induction ts generalizing lo with
  | nil => cases ht
  | cons u ts ih =>
    obtain ⟨hstart, hstop, -, hts⟩ := h
    rcases List.mem_cons.1 ht with rfl | ht
    · exact hstart
    · exact Nat.le_trans (Nat.le_trans hstart hstop) (ih hts ht)

namespace Scan

variable {rules : ScanRules} {start depth depth' n : Nat} {c : Char} {cs text : List Char}
  {meaning : Meaning} {ts others : List Token}

/-! ## No piece is empty -/

theorem decorate_ne_nil {base name rest : List Char} (h : decorate base rest = .ok name)
    (hbase : base ≠ []) : name ≠ [] := by
  obtain ⟨more, -, rfl⟩ := decorate_eq_ok h
  simp [hbase]

theorem commandPiece_ne_nil (depth : Nat) (letters rest : List Char) :
    (commandPiece depth letters rest).1.text ≠ [] := by
  have hcommand : '\\' :: letters ≠ [] := List.cons_ne_nil _ _
  have hcase := commandPiece_cases depth letters rest
  generalize commandPiece depth letters rest = next at hcase
  cases hcase with
  | letter hgreek hname => exact decorate_ne_nil hname hcommand
  | undecorated hfault => exact hcommand
  | layout htext | token htext hkind | bracket htext hkind | wrong htext hcode =>
    exact htext.command.ne_nil hcommand

theorem split?_ne_nil {number rest : List Char}
    (h : Number.Numeral.split? cs = some (number, rest)) : number ≠ [] := by
  obtain ⟨⟨mantissa, after⟩, hmantissa, heq⟩ := Option.bind_eq_some_iff.1 h
  have hne : mantissa ≠ [] := by
    unfold Number.Numeral.splitMantissa? at hmantissa
    split at hmantissa
    · split at hmantissa <;> cases hmantissa
      exact List.cons_ne_nil _ _
    · cases hmantissa
    · cases hmantissa
      exact List.append_ne_nil_of_right_ne_nil _ (List.cons_ne_nil _ _)
    · rename_i hwhole _ _
      cases hmantissa
      rintro rfl
      exact hwhole rfl
  cases heq
  exact List.append_ne_nil_of_left_ne_nil hne _

theorem numberPiece_ne_nil (c : Char) (cs : List Char) : (numberPiece c cs).text ≠ [] := by
  unfold numberPiece
  split
  · exact List.cons_ne_nil _ _
  · rename_i hnumber
    have hne := split?_ne_nil hnumber
    split
    · exact hne
    · exact List.append_ne_nil_of_left_ne_nil hne _

theorem nextPiece_ne_nil (rules : ScanRules) (depth : Nat) (c : Char) (cs : List Char) :
    (nextPiece rules depth c cs).1.text ≠ [] := by
  have hfirst : [c] ≠ [] := List.cons_ne_nil _ _
  fun_cases nextPiece
  case case1 => exact hfirst
  case case2 => exact commandPiece_ne_nil _ _ _
  case case3 =>
    dsimp only
    rw [signPiece_text]
    exact List.cons_ne_nil _ _
  case case4 => exact hfirst
  case case5 =>
    dsimp only
    split
    · exact hfirst
    split
    · split <;> exact hfirst
    split
    · exact hfirst
    split
    · exact numberPiece_ne_nil c cs
    split
    · unfold namePiece
      dsimp only
      split
      · exact List.cons_ne_nil _ _
      · split
        · exact List.cons_ne_nil _ _
        · rename_i hname
          split
          · exact List.cons_ne_nil _ _
          · exact decorate_ne_nil hname (List.cons_ne_nil _ _)
    · exact hfirst

/-! ## Tokens piece by piece -/

theorem tokensFrom_eq_ok :
    tokensFrom rules start depth (c :: cs) = .ok ts ↔
      ∃ text meaning depth' others, nextPiece rules depth c cs = (⟨text, meaning⟩, depth') ∧
        (∀ fault, meaning ≠ .misread fault) ∧
        tokensFrom rules (start + byteSize text) depth' (cs.drop (text.length - 1)) = .ok others ∧
        ts = meaning.tokens start (start + byteSize text) ++ others := by
  rw [tokensFrom_cons]
  rcases nextPiece rules depth c cs with ⟨⟨text, meaning⟩, depth'⟩
  cases meaning with
  | layout =>
    constructor
    · intro h
      exact ⟨text, .layout, depth', ts, rfl, nofun, h, rfl⟩
    · rintro ⟨_, _, _, others, ⟨⟩, -, h, rfl⟩
      exact h
  | token kind =>
    constructor
    · intro h
      obtain ⟨others, hothers, heq⟩ := bind_eq_ok.1 h
      cases heq
      exact ⟨text, .token kind, depth', others, rfl, nofun, hothers, rfl⟩
    · rintro ⟨_, _, _, others, ⟨⟩, -, h, rfl⟩
      exact bind_eq_ok.2 ⟨others, h, rfl⟩
  | misread fault =>
    constructor
    · intro h
      cases h
    · rintro ⟨_, _, _, _, ⟨⟩, hread, -⟩
      exact absurd rfl (hread fault)

theorem mapM_shifted {xs : List (Except SourceError Token)} (h : xs.mapM id = .ok ts) (n : Nat) :
    (xs.map (shifted n)).mapM id = .ok (ts.map (Token.shift · n)) := by
  induction xs generalizing ts with
  | nil =>
    cases h
    rfl
  | cons x xs ih =>
    rw [List.mapM_cons] at h
    obtain ⟨t, ht, hrest⟩ := bind_eq_ok.1 h
    obtain ⟨others, hothers, heq⟩ := bind_eq_ok.1 hrest
    cases heq
    obtain rfl : x = .ok t := ht
    rw [List.map_cons, List.mapM_cons, ih hothers]
    rfl

theorem tokensFrom_add (h : tokensFrom rules start depth cs = .ok ts) (n : Nat) :
    tokensFrom rules (start + n) depth cs = .ok (ts.map (Token.shift · n)) := by
  rw [tokensFrom, place_add]
  exact mapM_shifted h n

theorem le_start_of_tokensFrom (h : tokensFrom rules start depth cs = .ok ts) {t : Token}
    (ht : t ∈ ts) : start ≤ t.start :=
  ((tokensFrom_meets rules (Nat.le_refl _)).result h).le_start ht

/-! ## The text before a parenthesis -/

theorem nextPiece_left (rules : ScanRules) (depth : Nat) (b : List Char) :
    nextPiece rules depth '\\' ("left".toList ++ '(' :: b) = (.layout "\\left".toList, depth) := by
  rw [nextPiece_command (by decide) (by decide) (stops_cons.2 (by decide))]
  rfl

theorem isPrefix_of_byteSize_le {front front' : List Char} (h : front <+: cs) (h' : front' <+: cs)
    (hle : byteSize front ≤ byteSize front') : front <+: front' := by
  rcases List.prefix_or_prefix_of_prefix h h' with hfront | ⟨more, rfl⟩
  · exact hfront
  · cases more with
    | nil =>
      rw [List.append_nil]
    | cons c more =>
      have hpos := c.utf8Size_pos
      rw [byteSize_append, byteSize_cons] at hle
      omega

/-- Where a token begins right behind a text, the pieces of the text are inside it. -/
theorem exists_behind_piece {xs r : List Char} {t : Token}
    (next : nextPiece rules depth c (xs ++ r) = (⟨text, meaning⟩, depth'))
    (hothers : tokensFrom rules (start + byteSize text) depth'
      ((xs ++ r).drop (text.length - 1)) = .ok others)
    (ht : t ∈ meaning.tokens start (start + byteSize text) ++ others)
    (hstart : t.start = start + byteSize (c :: xs)) :
    ∃ ys, c :: xs = text ++ ys ∧ t ∈ others ∧
      ∀ r : List Char, (xs ++ r).drop (text.length - 1) = ys ++ r := by
  have hpos := c.utf8Size_pos
  rw [byteSize_cons] at hstart
  have hmem : t ∈ others := by
    rcases List.mem_append.1 ht with hown | hmem
    · cases meaning with
      | token kind =>
        obtain rfl := List.mem_singleton.1 hown
        dsimp only at hstart
        omega
      | _ => cases hown
    · exact hmem
  have hfront := (nextPiece_begins rules depth c (xs ++ r)).front
  have hne := nextPiece_ne_nil rules depth c (xs ++ r)
  rw [next] at hfront hne
  have hle := le_start_of_tokensFrom hothers hmem
  obtain ⟨ys, hys⟩ : text <+: c :: xs := by
    refine isPrefix_of_byteSize_le hfront (List.prefix_append (c :: xs) r) ?_
    rw [byteSize_cons]
    omega
  refine ⟨ys, hys.symm, hmem, fun r => ?_⟩
  obtain ⟨d, text, rfl⟩ := List.exists_cons_of_ne_nil hne
  obtain ⟨rfl, rfl⟩ := List.cons.inj hys
  rw [List.length_cons, Nat.add_sub_cancel]
  change (text ++ ys ++ r).drop text.length = ys ++ r
  rw [List.append_assoc, List.drop_left]

theorem decoration_of_isBlank {g : Char} (hg : isBlank g) (cs : List Char) :
    decoration (g :: cs) = .ok [] := by
  have hne : ∀ d ∈ ['_', '\'', '^'], g ≠ d := by
    have hnot : ∀ d ∈ ['_', '\'', '^'], isBlank d = false := by decide
    rintro d hd rfl
    rw [hnot g hd] at hg
    cases hg
  have hraise : ('^' == g) = false := beq_false_of_ne (Ne.symm (hne '^' (by decide)))
  simp [decoration, hne '_' (by decide), hne '\'' (by decide), List.isPrefixOf, hraise]

/-- Nothing in blanks and what is apart goes on with a word. -/
theorem decorate_bareWord {gap r : List Char} (hgap : ∀ d ∈ gap, isBlank d) (hr : Apart r)
    (word : List Char) :
    Stops (continuesName .equation) (gap ++ r) ∧ decorate word (gap ++ r) = .ok word := by
  have hnone : Stops (continuesName .equation) (gap ++ r) ∧
      decorationsFrom 0 (gap ++ r) = .ok [] := by
    cases gap with
    | nil =>
      refine ⟨hr.stops (by decide), ?_⟩
      cases r with
      | nil => rfl
      | cons c r => rw [List.nil_append, decorationsFrom, decoration_apart hr]
    | cons g gap =>
      have hg := hgap g List.mem_cons_self
      refine ⟨stops_cons.2 ?_, ?_⟩
      · simp [continuesName, isWordContinue_of_isBlank hg]
      · rw [List.cons_append, decorationsFrom, decoration_of_isBlank hg]
  refine ⟨hnone.1, ?_⟩
  rw [decorate, hnone.2, foldr_following, List.append_nil]

/-- What begins like a word is a name. -/
theorem nextPiece_of_wordStart (hmode : rules.mode = .equation) (hstart : startsName .equation c)
    (depth : Nat) (cs : List Char) :
    nextPiece rules depth c cs = (namePiece rules c cs, depth) := by
  have hstart' : startsName .units c := by
    simp only [startsName] at hstart ⊢
    rw [hstart, Bool.true_or]
  have hne : ∀ d ∈ ['\\', '&', '%', '~'], c ≠ d := by
    have hnot : ∀ d ∈ ['\\', '&', '%', '~'], startsName .equation d = false := by decide
    rintro d hd rfl
    rw [hnot c hd] at hstart
    cases hstart
  have hblank : isBlank c = false := by
    rw [Bool.eq_false_iff]
    intro hblank
    rw [startsName_of_isBlank hblank] at hstart'
    cases hstart'
  rw [nextPiece.eq_def, if_neg (hne '\\' (by decide)), sign?_of_startsName hstart']
  simp [hne '&' (by decide), hne '%' (by decide), hne '~' (by decide), hblank,
    startsNumber_of_startsName hstart', hmode, hstart]

/-- A bare word is an identifier if it is called, and a unit if it may be one and is not. -/
theorem nextPiece_bareWord (hmode : rules.mode = .equation) {run gap r : List Char}
    (hword : IsBareWord (c :: run)) (hunit : rules.isUnitWord (String.ofList (c :: run)))
    (hgap : ∀ d ∈ gap, isBlank d) (hr : Apart r) :
    nextPiece rules depth c (run ++ (gap ++ r)) =
      (.token (c :: run) (if isCalled r then .ident (String.ofList (c :: run))
        else .unit (String.ofList (c :: run))), depth) := by
  obtain ⟨hstart, hrun⟩ := hword
  obtain ⟨hstops, hdecorate⟩ := decorate_bareWord hgap hr (c :: run)
  rw [nextPiece_of_wordStart hmode hstart]
  simp only [namePiece, hmode, takeWhile_append_of_stops hrun hstops,
    dropWhile_append_of_stops hrun hstops, hdecorate, isCalled_append hgap, hunit]
  cases isCalled r <;> simp

/-- A text ends in a bare word that stands for a unit, and that is a token. Blanks may follow it. -/
def EndsInUnitWord (rules : ScanRules) (start : Nat) (a : List Char) (ts : List Token) : Prop :=
  ∃ before word gap, a = before ++ (word ++ gap) ∧ IsBareWord word ∧
    rules.isUnitWord (String.ofList word) ∧ (∀ c ∈ gap, isBlank c) ∧
    ⟨.ident (String.ofList word), start + byteSize before, start + byteSize (before ++ word)⟩ ∈ ts

/-- If the text is no such word as a whole, then what is behind its first piece ends in one. -/
theorem endsInUnitWord_append {ys : List Char} (hword : ¬EndsUnitWord rules (text ++ ys))
    (hothers : ∀ t ∈ others, start + byteSize text ≤ t.start) :
    EndsInUnitWord rules start (text ++ ys)
        (meaning.tokens start (start + byteSize text) ++ others) ↔
      EndsInUnitWord rules (start + byteSize text) ys others := by
  constructor
  · rintro ⟨before, word, gap, hsplit, hbare, hunit, hgap, hmem⟩
    have hne : before ≠ [] := by
      rintro rfl
      exact hword ⟨word, gap, hsplit, hbare, hunit, hgap⟩
    obtain ⟨c, before', rfl⟩ := List.exists_cons_of_ne_nil hne
    have hpos := c.utf8Size_pos
    have hmem' := (List.mem_append.1 hmem).resolve_left fun hown => by
      cases meaning with
      | token kind =>
        have hstart := congrArg Token.start (List.mem_singleton.1 hown)
        rw [byteSize_cons] at hstart
        dsimp only at hstart
        omega
      | _ => cases hown
    have hle := hothers _ hmem'
    obtain ⟨front, hfront⟩ : text <+: c :: before' :=
      isPrefix_of_byteSize_le ⟨ys, rfl⟩ ⟨word ++ gap, hsplit.symm⟩ (by dsimp only at hle; omega)
    rw [← hfront] at hsplit hmem'
    rw [List.append_assoc] at hsplit
    refine ⟨front, word, gap, List.append_cancel_left hsplit, hbare, hunit, hgap, ?_⟩
    rw [List.append_assoc, byteSize_append, byteSize_append, ← Nat.add_assoc,
      ← Nat.add_assoc] at hmem'
    exact hmem'
  · rintro ⟨before, word, gap, rfl, hbare, hunit, hgap, hmem⟩
    refine ⟨text ++ before, word, gap, (List.append_assoc _ _ _).symm, hbare, hunit, hgap, ?_⟩
    rw [List.append_assoc, byteSize_append, byteSize_append, ← Nat.add_assoc, ← Nat.add_assoc]
    exact List.mem_append_right _ hmem

/-- The parenthesis and the one with a size, as the texts behind. -/
theorem apart_left (b : List Char) :
    Apart ('(' :: b) ∧ Apart ('\\' :: ("left".toList ++ '(' :: b)) := by
  refine ⟨apart_cons (by decide) (by decide) b, ?_, ?_⟩
  · rintro _ ⟨⟩
    decide
  · intro h
    exact absurd (List.cons_prefix_cons.1 (List.cons_prefix_cons.1 h).2).1 (by decide)

theorem map_movedFrom_tokens {position stop : Nat} (h : start < position) (n : Nat) :
    (meaning.tokens start stop).map (Token.movedFrom position n) = meaning.tokens start stop := by
  cases meaning with
  | token kind => exact congrArg (fun t => [t]) (if_neg (Nat.not_le.2 h))
  | _ => rfl

/-- A piece before the position stays, and then the tokens behind it decide. -/
theorem tokensFrom_movedFrom_iff {position : Nat}
    (next : nextPiece rules depth c cs = (⟨text, meaning⟩, depth'))
    (hread : ∀ fault, meaning ≠ .misread fault) (hposition : start < position) (n : Nat) :
    tokensFrom rules start depth (c :: cs) =
        .ok ((meaning.tokens start (start + byteSize text) ++ others).map
          (Token.movedFrom position n)) ↔
      tokensFrom rules (start + byteSize text) depth' (cs.drop (text.length - 1)) =
        .ok (others.map (Token.movedFrom position n)) := by
  rw [tokensFrom_eq_ok, List.map_append, map_movedFrom_tokens hposition]
  constructor
  · rintro ⟨_, _, _, others', next', -, hothers', htokens⟩
    rw [next] at next'
    cases next'
    rw [List.append_cancel_left htokens]
    exact hothers'
  · intro hothers
    exact ⟨text, meaning, depth', _, next, hread, hothers, rfl⟩

/-- A word that stands for a unit is called before the parenthesis, and is a unit before one with a
size. -/
theorem tokensFrom_left_unitWord (hmode : rules.mode = .equation) {b xs : List Char}
    (hword : EndsUnitWord rules (c :: xs))
    (h : tokensFrom rules start depth (c :: (xs ++ '(' :: b)) = .ok ts) (position n : Nat) :
    tokensFrom rules start depth (c :: (xs ++ '\\' :: ("left".toList ++ '(' :: b))) ≠
        .ok (ts.map (Token.movedFrom position n)) ∧
      EndsInUnitWord rules start (c :: xs) ts := by
  obtain ⟨hparen, hleft⟩ := apart_left b
  obtain ⟨word, gap, hsplit, hbare, hunit, hgap⟩ := hword
  obtain ⟨d, run, rfl⟩ := List.exists_cons_of_ne_nil (show word ≠ [] by rintro rfl; exact hbare)
  obtain ⟨rfl, rfl⟩ : c = d ∧ xs = run ++ gap := List.cons.inj hsplit
  obtain ⟨text, meaning, depth', others, next, -, -, rfl⟩ := tokensFrom_eq_ok.1 h
  rw [List.append_assoc, nextPiece_bareWord hmode hbare hunit hgap hparen] at next
  cases next
  refine ⟨fun hequal => ?_, [], c :: run, gap, rfl, hbare, hunit, hgap, List.mem_cons_self⟩
  obtain ⟨text, meaning, depth', others', next', -, -, htokens⟩ := tokensFrom_eq_ok.1 hequal
  rw [List.append_assoc, nextPiece_bareWord hmode hbare hunit hgap hleft] at next'
  cases next'
  have hkind := congrArg Token.kind (List.cons.inj htokens).1
  rw [Token.movedFrom_kind] at hkind
  cases hkind

/-- The induction is on the length of the text before the parenthesis: every piece of it stays,
but for a word that may be called. -/
theorem tokensFrom_left_iff (hmode : rules.mode = .equation) (b : List Char) :
    ∀ {a : List Char} {start depth : Nat} {ts : List Token},
      tokensFrom rules start depth (a ++ '(' :: b) = .ok ts →
      (∃ t ∈ ts, t.start = start + byteSize a) →
      (tokensFrom rules start depth (a ++ '\\' :: ("left".toList ++ '(' :: b)) =
          .ok (ts.map (Token.movedFrom (start + byteSize a) 5)) ↔
        ¬EndsInUnitWord rules start a ts)
  | [], start, depth, ts, h, hparen => by
    have hnot : ¬EndsInUnitWord rules start [] ts := by
      rintro ⟨before, word, gap, hsplit, hbare, -⟩
      obtain ⟨-, hword⟩ := List.append_eq_nil_iff.1 hsplit.symm
      rw [(List.append_eq_nil_iff.1 hword).1] at hbare
      exact hbare
    refine iff_of_true ?_ hnot
    have hmoved : ts.map (Token.movedFrom (start + byteSize []) 5) = ts.map (Token.shift · 5) :=
      List.map_congr_left fun t ht => if_pos (le_start_of_tokensFrom h ht)
    rw [hmoved]
    exact tokensFrom_eq_ok.2 ⟨"\\left".toList, .layout, depth, ts.map (Token.shift · 5),
      nextPiece_left rules depth b, nofun, tokensFrom_add h 5, rfl⟩
  | c :: xs, start, depth, ts, h, ⟨t, ht, hstart⟩ => by
    rw [List.cons_append] at h ⊢
    by_cases hword : EndsUnitWord rules (c :: xs)
    · obtain ⟨hne, hends⟩ := tokensFrom_left_unitWord hmode hword h (start + byteSize (c :: xs)) 5
      exact iff_of_false hne (not_not_intro hends)
    · obtain ⟨hparen, hleft⟩ := apart_left b
      obtain ⟨text, meaning, depth', others, next, hread, hothers, rfl⟩ := tokensFrom_eq_ok.1 h
      obtain ⟨ys, hys, hmem, hdrop⟩ := exists_behind_piece next hothers ht hstart
      have next' := kept_nextPiece hparen hleft depth c xs (fun _ h => absurd h hword)
        (by rw [next]; exact hread)
        (by rw [next, ← List.length_cons, hys]; simp)
      rw [next] at next'
      have hbefore : start < start + byteSize (c :: xs) := by
        have hpos := c.utf8Size_pos
        rw [byteSize_cons]
        omega
      have hposition : start + byteSize (c :: xs) = start + byteSize text + byteSize ys := by
        rw [hys, byteSize_append, Nat.add_assoc]
      have hlower : ∀ t ∈ others, start + byteSize text ≤ t.start := fun _ =>
        le_start_of_tokensFrom hothers
      rw [hdrop] at hothers
      rw [tokensFrom_movedFrom_iff next' hread hbefore, hdrop, hposition,
        tokensFrom_left_iff hmode b hothers ⟨t, hmem, hstart.trans hposition⟩, hys,
        endsInUnitWord_append (by rwa [← hys]) hlower]
termination_by a => a.length
decreasing_by
  have hne := nextPiece_ne_nil rules depth c (xs ++ '(' :: b)
  have hsize := congrArg List.length hys
  rw [next, ← List.length_pos_iff] at hne
  rw [List.length_append] at hsize
  dsimp only at hne
  omega

end Scan

open Scan in
/-- A size before a parenthesis moves the tokens from there on and changes nothing else, exactly if
the text before the parenthesis does not end in a bare word that stands for a unit. -/
theorem tokens_left_iff {rules : ScanRules} (hmode : rules.mode = .equation) {a b : String}
    {ts : List Token} (h : tokens rules (a ++ "(" ++ b) = .ok ts)
    (hparen : ∃ t ∈ ts, t.kind = .lparen ∧ t.start = byteSize a.toList) :
    tokens rules (a ++ "\\left(" ++ b) =
        .ok (ts.map (Token.movedFrom (byteSize a.toList) 5)) ↔
      ¬EndsInUnitWord rules 0 a.toList ts := by
  have hbare : (a ++ "(" ++ b).toList = a.toList ++ '(' :: b.toList := by simp
  have hleft : (a ++ "\\left(" ++ b).toList =
      a.toList ++ '\\' :: ("left".toList ++ '(' :: b.toList) := by simp
  obtain ⟨t, ht, -, hstart⟩ := hparen
  have hiff := @tokensFrom_left_iff rules hmode b.toList a.toList 0 0 ts (by rw [← hbare]; exact h)
    ⟨t, ht, by rw [hstart, Nat.zero_add]⟩
  rw [← hleft, Nat.zero_add] at hiff
  exact hiff

/-- Minutes and no other unit. -/
def UnitTable.minutes : UnitTable :=
  { entries := [("min", ⟨"min", "min", .unit "s", 60, 0⟩)] }

open Scan in
/-- No unit is called `max`. -/
theorem tokens_left_maximum :
    let rules : ScanRules := ⟨.equation, UnitTable.minutes.readsAsUnit⟩
    let ts := [⟨.ident "max", 0, 3⟩, ⟨.lparen, 3, 4⟩, ⟨.num "3", 4, 5⟩, ⟨.rparen, 5, 6⟩]
    tokens rules ("max" ++ "(" ++ "3)") = .ok ts ∧
      tokens rules ("max" ++ "\\left(" ++ "3)") = .ok (ts.map (Token.movedFrom 3 5)) := by
  intro rules ts
  have h : tokens rules ("max" ++ "(" ++ "3)") = .ok ts := by decide +kernel
  have hmax : rules.isUnitWord "max" = false := by decide
  refine ⟨h, (tokens_left_iff rfl h ⟨⟨.lparen, 3, 4⟩, by decide, rfl, rfl⟩).2 ?_⟩
  rintro ⟨before, word, gap, -, -, hunit, -, hmem⟩
  have hword : String.ofList word = "max" := by
    rcases List.mem_cons.1 hmem with heq | hmem
    · exact Token.Kind.ident.inj (congrArg Token.kind heq)
    · simp at hmem
  rw [hword, hmax] at hunit
  cases hunit

open Scan in
/-- The minimum of two numbers becomes minutes before a parenthesis with a size. -/
theorem tokens_left_minimum_ne :
    let rules : ScanRules := ⟨.equation, UnitTable.minutes.readsAsUnit⟩
    let ts := [⟨.ident "min", 0, 3⟩, ⟨.lparen, 3, 4⟩, ⟨.num "3", 4, 5⟩, ⟨.comma, 5, 6⟩,
      ⟨.num "4", 7, 8⟩, ⟨.rparen, 8, 9⟩]
    tokens rules ("min" ++ "(" ++ "3, 4)") = .ok ts ∧
      tokens rules ("min" ++ "\\left(" ++ "3, 4)") =
        .ok (⟨.unit "min", 0, 3⟩ :: ts.tail.map (Token.movedFrom 3 5)) ∧
      tokens rules ("min" ++ "\\left(" ++ "3, 4)") ≠ .ok (ts.map (Token.movedFrom 3 5)) := by
  decide +kernel

end Worksheet
