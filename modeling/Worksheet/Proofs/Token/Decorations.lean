import Worksheet.Proofs.Token.Spelling
/-!
# Decorated letters

A Greek letter with subscripts or primes is an identifier, but the plain spelling of a unit text
sets it off from them, and units have neither.
-/

namespace Worksheet.Scan

open Text

/-- What subscripts and primes begin with. -/
def marks : List String := ["_", "'", "^\\prime", "^\x7b\\prime"]

/-- Begins with a subscript or a prime. -/
def Decorated (cs : List Char) : Prop := ∃ mark ∈ marks, mark.toList <+: cs

theorem Decorated.append {cs : List Char} (h : Decorated cs) (rest : List Char) :
    Decorated (cs ++ rest) := by
  obtain ⟨mark, hmark, hbegins⟩ := h
  exact ⟨mark, hmark, hbegins.trans (List.prefix_append cs rest)⟩

/-- Nothing but a character of its own cuts into a mark. -/
theorem Decorated.of_append {c : Char} (hc : ∀ mark ∈ marks, c ∉ mark.toList) {cs rest : List Char}
    (h : Decorated (cs ++ c :: rest)) : Decorated cs := by
  obtain ⟨mark, hmark, after, hafter⟩ := h
  refine ⟨mark, hmark, ?_⟩
  rcases List.append_eq_append_iff.1 hafter with ⟨more, hcs, -⟩ | ⟨cut, hcut, hrest⟩
  · exact ⟨more, hcs.symm⟩
  · cases cut with
    | nil =>
      rw [hcut, List.append_nil]
    | cons d cut =>
      refine absurd ?_ (hc mark hmark)
      rw [hcut, (List.cons.inj hrest).1]
      simp

theorem Decorated.written {cs : List Char} (h : Decorated cs) : Decorated (cs.flatMap written) := by
  have hmarks : ∀ mark ∈ marks, mark.toList.flatMap Scan.written = mark.toList := by decide
  obtain ⟨mark, hmark, rest, rfl⟩ := h
  refine ⟨mark, hmark, rest.flatMap Scan.written, ?_⟩
  rw [List.flatMap_append, hmarks mark hmark]

theorem Decorated.trimEnd {cs : List Char} (h : Decorated cs) : Decorated (trimEnd cs) := by
  have hmarks : ∀ mark ∈ marks, Text.trimEnd mark.toList = mark.toList := by decide
  obtain ⟨mark, hmark, rest, rfl⟩ := h
  exact ⟨mark, hmark, Text.trimEnd rest, (trimEnd_append_of_trimmed (hmarks mark hmark) rest).symm⟩

theorem Decorated.stops {cs : List Char} (h : Decorated cs) {p : Char → Bool}
    (hp : ∀ c ∈ ['_', '\'', '^'], p c = false) : Stops p cs := by
  have hmarks : ∀ mark ∈ marks, mark.toList.head? ∈ ['_', '\'', '^'].map some := by decide
  obtain ⟨mark, hmark, rest, rfl⟩ := h
  obtain ⟨c, hc, hhead⟩ := List.mem_map.1 (hmarks mark hmark)
  intro d hd
  rw [List.head?_append, ← hhead] at hd
  cases hd
  exact hp c hc

theorem following_eq_ok {c : Char} {r : Except Misread (List Char)} {cs : List Char}
    (h : following c r = .ok cs) : ∃ ds, r = .ok ds ∧ cs = c :: ds := by
  cases r with
  | ok ds =>
    cases h
    exact ⟨ds, rfl, rfl⟩
  | error fault => cases h

theorem decorationsFrom_append {front cs more : List Char}
    (h : decorationsFrom front.length (front ++ cs) = .ok more) :
    ∃ ds, decorationsFrom 0 cs = .ok ds ∧ more = front ++ ds := by
  induction front generalizing more with
  | nil => exact ⟨more, h, rfl⟩
  | cons c front ih =>
    rw [List.length_cons, List.cons_append, decorationsFrom] at h
    obtain ⟨ds, hds, rfl⟩ := following_eq_ok h
    obtain ⟨es, hes, rfl⟩ := ih hds
    exact ⟨es, hes, rfl⟩

theorem decorated_of_decorationsFrom {cs more : List Char} (h : decorationsFrom 0 cs = .ok more)
    (hne : more ≠ []) : Decorated more := by
  cases cs with
  | nil =>
    cases h
    exact absurd rfl hne
  | cons c cs =>
    rw [decorationsFrom] at h
    split at h
    · cases h
    · cases h
      exact absurd rfl hne
    · rename_i d ds hdecoration
      obtain ⟨es, hes, rfl⟩ := following_eq_ok h
      unfold decoration at hdecoration
      split at hdecoration
      iterate 3
        · rename_i heq
          cases heq
          exact ⟨"_", by decide, es, rfl⟩
      · rename_i heq
        cases heq
        exact ⟨"'", by decide, es, rfl⟩
      · dsimp only at hdecoration
        split at hdecoration
        · rename_i hbraced
          obtain ⟨rest, hrest⟩ := List.isPrefixOf_iff_prefix.1 hbraced
          cases hdecoration
          cases hrest
          obtain ⟨fs, -, rfl⟩ := decorationsFrom_append hes
          exact ⟨"^\x7b\\prime", by decide, '\x7d' :: fs, rfl⟩
        split at hdecoration
        · rename_i hbare
          obtain ⟨rest, hrest⟩ := List.isPrefixOf_iff_prefix.1 hbare
          cases hdecoration
          cases hrest
          obtain ⟨fs, -, rfl⟩ := decorationsFrom_append hes
          exact ⟨"^\\prime", by decide, fs, rfl⟩
        · cases hdecoration

/-! ## They cannot be read -/

variable {rules : ScanRules} {depth : Nat} {ks : List Token.Kind}

/-- A text is cut into tokens, whatever they are. -/
def Scannable (rules : ScanRules) (depth : Nat) (cs : List Char) : Prop :=
  ∃ ks, Scans rules depth cs ks

theorem Scannable.next {c : Char} {cs : List Char} (h : Scannable rules depth (c :: cs)) :
    (∀ fault, (nextPiece rules depth c cs).1.meaning ≠ .misread fault) ∧
      Scannable rules (nextPiece rules depth c cs).2
        (cs.drop ((nextPiece rules depth c cs).1.text.length - 1)) := by
  obtain ⟨ks, hscans⟩ := h
  cases hscans with
  | token next others =>
    rw [next]
    exact ⟨nofun, _, others⟩
  | layout next others =>
    rw [next]
    exact ⟨nofun, _, others⟩

theorem Scannable.behind {c : Char} {cs rest : List Char} {kind : Token.Kind} {depth' : Nat}
    (h : Scannable rules depth (c :: (cs ++ rest)))
    (next : nextPiece rules depth c (cs ++ rest) = (.token (c :: cs) kind, depth')) :
    Scannable rules depth' rest := by
  have hrest := h.next.2
  rw [next] at hrest
  change Scannable rules depth' ((cs ++ rest).drop ((c :: cs).length - 1)) at hrest
  rwa [List.length_cons, Nat.add_sub_cancel, List.drop_left] at hrest

theorem Scannable.behind_sign {c : Char} {cs : List Char} {kind : Token.Kind} (hc : sign? c = some kind)
    (h : Scannable rules depth (c :: cs)) : Scannable rules depth cs := by
  have hne : c ≠ '\\' := by
    rintro rfl
    cases hc
  have hrest := h.next.2
  rw [nextPiece.eq_def, if_neg hne, hc] at hrest
  exact hrest

/-- No word of units begins with an underscore or an apostrophe. -/
theorem not_scannable_mark (hmode : rules.mode = .units) {c : Char} (hc : c = '_' ∨ c = '\'')
    (cs : List Char) : ¬Scannable rules depth (c :: cs) := by
  intro h
  refine h.next.1 ⟨.unrecognizedToken, 0, byteSize [c]⟩ ?_
  have hblank : isBlank c = false := by rcases hc with rfl | rfl <;> decide
  have hstart : startsName .units c = false := by
    rcases hc with rfl | rfl <;> exact startsName_of_mem (by decide)
  rcases hc with rfl | rfl <;> rw [nextPiece.eq_def, if_neg (by decide)] <;>
    simp [sign?, hblank, startsNumber, hmode, hstart, Piece.wrong]

/-- The commands that unit texts or expressions know. -/
def knownCommands : List String :=
  UnitText.wrappers ++ layoutCommands ++ functionCommands ++ greekLetters ++
    ["frac", "dfrac", "tfrac", "sqrt", "cdot", "times", "ast", "div", "operatorname", "begin", "end",
      "circ", "percent"]

def IsUnknown (name : List Char) : Prop := String.ofList name ∉ knownCommands

theorem IsUnknown.contains {name : List Char} (h : IsUnknown name) {names : List String}
    (hnames : names ⊆ knownCommands) : names.contains (String.ofList name) = false := by
  rw [List.contains_eq_mem, decide_eq_false_iff_not]
  exact fun hmem => h (hnames hmem)

theorem IsUnknown.ne {name : List Char} (h : IsUnknown name) {known : String}
    (hknown : known ∈ knownCommands) : String.ofList name ≠ known := fun heq => h (heq ▸ hknown)

theorem IsUnknown.commandText {name : List Char} (h : IsUnknown name) :
    UnitText.commandText (String.ofList name) = '\\' :: (name ++ [' ']) := by
  unfold UnitText.commandText
  rw [if_neg (h.ne (by decide)), if_neg (h.ne (by decide)), if_neg (h.ne (by decide)),
    if_neg (h.ne (by decide)), h.contains (by decide)]
  simp [h.ne (show "cdot" ∈ knownCommands by decide), h.ne (show "times" ∈ knownCommands by decide)]

theorem IsUnknown.not_scannable {name : List Char} (h : IsUnknown name) (hne : name ≠ [])
    (halpha : ∀ c ∈ name, c.isAlpha) {rest : List Char} (hrest : Stops Char.isAlpha rest) :
    ¬Scannable rules depth ('\\' :: (name ++ rest)) := by
  intro hscannable
  refine hscannable.next.1 ⟨.unknownCommand, 0, byteSize ('\\' :: name)⟩ ?_
  rw [nextPiece_command hne halpha hrest]
  unfold commandPiece
  dsimp only
  rw [h.contains (by decide), h.contains (by decide), h.contains (by decide), h.contains (by decide)]
  have hother := fun known (hknown : known ∈ knownCommands) => h.ne hknown
  simp [hother "frac" (by decide), hother "dfrac" (by decide), hother "tfrac" (by decide),
    hother "sqrt" (by decide), hother "cdot" (by decide), hother "times" (by decide),
    hother "ast" (by decide), hother "div" (by decide), hother "operatorname" (by decide),
    hother "begin" (by decide), hother "end" (by decide), Piece.wrong]

/-- No command begins like the one for a prime. -/
theorem isUnknown_prime (name : List Char) : IsUnknown ("prime".toList ++ name) := by
  have hall : ∀ known ∈ knownCommands, ¬"prime".toList <+: known.toList := by decide
  intro hmem
  exact hall _ hmem ⟨name, String.toList_ofList.symm⟩

theorem not_scannable_prime (cs : List Char) :
    ¬Scannable rules depth (UnitText.plain ('\\' :: ("prime".toList ++ cs))) := by
  have hname : ∀ c ∈ "prime".toList ++ cs.takeWhile Char.isAlpha, c.isAlpha := by
    have hprime : ∀ c ∈ "prime".toList, c.isAlpha := by decide
    exact List.forall_mem_append.2 ⟨hprime, List.all_eq_true.1 List.all_takeWhile⟩
  have hsplit : "prime".toList ++ cs =
      "prime".toList ++ cs.takeWhile Char.isAlpha ++ cs.dropWhile Char.isAlpha := by
    rw [List.append_assoc, List.takeWhile_append_dropWhile]
  have hunknown := isUnknown_prime (cs.takeWhile Char.isAlpha)
  have hne : "prime".toList ++ cs.takeWhile Char.isAlpha ≠ [] := by simp
  rw [hsplit, UnitText.plain_command hne hname (stops_dropWhile _ cs), hunknown.commandText,
    List.cons_append, List.append_assoc]
  exact hunknown.not_scannable hne hname (stops_cons.2 (by decide))

/-- What is left of subscripts and primes in the plain spelling belongs to no name before it, and
cannot be read. -/
theorem Decorated.plain (hmode : rules.mode = .units) {cs : List Char} (h : Decorated cs) :
    ∃ c rest, UnitText.plain cs = c :: rest ∧ c ∈ nameBreaks ∧
      ¬Scannable rules depth (c :: rest) := by
  obtain ⟨mark, hmark, cs, rfl⟩ := h
  simp only [marks, List.mem_cons, List.not_mem_nil, or_false] at hmark
  rcases hmark with rfl | rfl | rfl | rfl
  · exact ⟨'_', _, UnitText.plain_cons (by decide) _, by decide, not_scannable_mark hmode (.inl rfl) _⟩
  · exact ⟨'\'', _, UnitText.plain_cons (by decide) _, by decide,
      not_scannable_mark hmode (.inr rfl) _⟩
  · refine ⟨'^', UnitText.plain ('\\' :: ("prime".toList ++ cs)), ?_, by decide,
      fun h => not_scannable_prime _ (h.behind_sign rfl)⟩
    change UnitText.plain ('^' :: '\\' :: ("prime".toList ++ cs)) = _
    rw [UnitText.plain_of_no_degree rfl, if_neg (by decide), if_neg (by decide)]
  · refine ⟨'^', '\x7b' :: UnitText.plain ('\\' :: ("prime".toList ++ cs)), ?_, by decide,
      fun h => not_scannable_prime _ ((h.behind_sign rfl).behind_sign rfl)⟩
    change UnitText.plain ('^' :: '\x7b' :: '\\' :: ("prime".toList ++ cs)) = _
    rw [UnitText.plain_of_no_degree rfl, if_neg (by decide), if_neg (by decide),
      UnitText.plain_cons (by decide)]

/-- Behind a Greek letter they are set off. -/
theorem scannable_behind_greek (hmode : rules.mode = .units) {letter : String}
    (hletter : letter ∈ greekLetters) {rest : List Char} (hrest : Stops (continuesName .units) rest)
    (h : Scannable rules depth (UnitText.commandText letter ++ rest)) : Scannable rules depth rest := by
  have hletters : ∀ l ∈ greekLetters,
      UnitText.commandText l = '\\' :: (l.toList ++ [' ']) ∨
        UnitText.commandText l = ['µ'] ∨ UnitText.commandText l = ['Ω'] := by
    decide
  have hsign : ∀ c, startsName .units c → Scannable rules depth (c :: ([] ++ rest)) →
      Scannable rules depth rest := by
    intro c hc hscannable
    have next := nextPiece_of_startsName hmode hc depth ([] ++ rest)
    rw [takeWhile_append_of_stops (fun d hd => absurd hd List.not_mem_nil) hrest] at next
    exact hscannable.behind next
  rcases hletters letter hletter with hcommand | hcommand | hcommand <;> rw [hcommand] at h
  · rw [List.cons_append, List.append_assoc] at h
    have hspace := (h.behind (nextPiece_greek hletter rest)).next.2
    rw [nextPiece_space] at hspace
    exact hspace
  · exact hsign 'µ' (by simp [startsName, isUnitSign]) h
  · exact hsign 'Ω' (by simp [startsName, isUnitSign]) h

/-- A Greek letter with a subscript or a prime cannot be read in plain spelling. -/
theorem not_scannable_greek (hmode : rules.mode = .units) {letter : String}
    (hletter : letter ∈ greekLetters) {rest : List Char} (hrest : Decorated rest) :
    ¬Scannable rules depth (UnitText.plain ('\\' :: (letter.toList ++ rest))) := by
  obtain ⟨hne, halpha⟩ := isAlpha_greek hletter
  have hspace : rest.dropWhile (· = ' ') = rest := dropWhile_of_stops (hrest.stops (by decide))
  obtain ⟨c, after, hplain, hc, hnot⟩ := @Decorated.plain rules depth hmode rest hrest
  rw [UnitText.plain_command hne halpha (hrest.stops (by decide)), hspace, String.ofList_toList,
    hplain]
  exact fun h => hnot (scannable_behind_greek hmode hletter
    (stops_cons.2 (continuesName_of_mem hc)) h)

/-- An identifier with a command in it is a Greek letter, decorated or not. -/
theorem IsIdent.greek_append {cs : List Char} (h : IsIdent cs) (hcommand : '\\' ∈ cs) :
    ∃ letter ∈ greekLetters, ∃ more, cs = '\\' :: (letter.toList ++ more) ∧
      (more = [] ∨ Decorated more) := by
  cases h with
  | word h =>
    rcases h with h | rfl
    · exact absurd hcommand (h.not_mem (by decide))
    · exact absurd hcommand (by decide)
  | @greek letter ds more hletter hmore =>
    refine ⟨letter, hletter, more, rfl, ?_⟩
    by_cases hnil : more = []
    · exact .inl hnil
    · exact .inr (decorated_of_decorationsFrom hmore hnil)

theorem written_greek {letter : String} (h : letter ∈ greekLetters) (more : List Char) :
    ('\\' :: (letter.toList ++ more)).flatMap written =
      '\\' :: (letter.toList ++ more.flatMap written) := by
  have hletters : ∀ l ∈ greekLetters, ('\\' :: l.toList).flatMap written = '\\' :: l.toList := by
    decide
  rw [← List.cons_append, List.flatMap_append, hletters letter h, List.cons_append]

/-- A Greek letter that keeps its meaning when it is written and read in plain spelling is bare. -/
theorem IsIdent.eq_greek (hmode : rules.mode = .units) {cs : List Char} (h : IsIdent cs)
    (hcommand : '\\' ∈ cs)
    (hscannable : Scannable rules depth (UnitText.plain (cs.flatMap written))) :
    ∃ letter ∈ greekLetters, cs = '\\' :: letter.toList := by
  obtain ⟨letter, hletter, more, rfl, hmore⟩ := h.greek_append hcommand
  refine ⟨letter, hletter, ?_⟩
  rcases hmore with rfl | hmore
  · rw [List.append_nil]
  · rw [written_greek hletter] at hscannable
    exact absurd hscannable (not_scannable_greek hmode hletter hmore.written)

end Worksheet.Scan
