import Worksheet.Proofs.Text.Word
import Worksheet.Proofs.Token.Pieces
import Worksheet.Proofs.Token.Scans
/-!
# Words of units

The identifiers of unit texts: words, the percent sign, and Greek letters written as commands.
-/

namespace Worksheet

namespace Scan

/-- Begins like the name of a unit and goes on like one. -/
def IsWord : List Char → Prop
  | [] => False
  | c :: cs => startsName .units c ∧ ∀ d ∈ cs, continuesName .units d

/-- Signs and digits, none of which the name of a unit has. -/
def nameBreaks : List Char :=
  ['\\', '~', '^', ' ', '{', '}', '(', ')', '/', '*', '+', '-', '[', ']', ',', '&', '%', '_', '\'',
    '.', '\u2212', '\u00d7', '\u22c5', '0', '1', '2', '3', '4', '5', '6', '7', '8', '9']

theorem continuesName_of_mem {c : Char} (h : c ∈ nameBreaks) : continuesName .units c = false := by
  have hall : ∀ c ∈ nameBreaks, continuesName .units c = false := by decide +kernel
  exact hall c h

theorem startsName_of_mem {c : Char} (h : c ∈ '\u00b7' :: nameBreaks) :
    startsName .units c = false := by
  have hall : ∀ c ∈ '\u00b7' :: nameBreaks, startsName .units c = false := by decide +kernel
  exact hall c h

theorem mem_of_isUnitSign {c : Char} (h : isUnitSign c) : c ∈ ['$', '°', 'µ', 'Ω'] := by
  simpa [isUnitSign, or_assoc] using h

theorem isUnitSign_of_isBlank {c : Char} (h : Text.isBlank c) : isUnitSign c = false := by
  have hall : ∀ c ∈ ['$', '°', 'µ', 'Ω'], Text.isBlank c = false := by decide
  rw [Bool.eq_false_iff]
  intro hsign
  rw [hall c (mem_of_isUnitSign hsign)] at h
  cases h

theorem startsName_of_isBlank {c : Char} (h : Text.isBlank c) : startsName .units c = false := by
  simp [startsName, Text.isWordStart_of_isBlank h, isUnitSign_of_isBlank h]

theorem continuesName_of_isBlank {c : Char} (h : Text.isBlank c) :
    continuesName .units c = false := by
  simp [continuesName, Text.isWordContinue_of_isBlank h, isUnitSign_of_isBlank h]

theorem sign?_of_startsName {c : Char} (h : startsName .units c) : sign? c = none := by
  have hnot : c ∉ '\u00b7' :: nameBreaks := fun hmem => by
    rw [startsName_of_mem hmem] at h
    cases h
  cases hsign : sign? c with
  | none => rfl
  | some kind =>
    refine absurd ?_ hnot
    unfold sign? at hsign
    split at hsign <;> first | decide | cases hsign

theorem startsName_of_isDigit {c : Char} (h : c.isDigit) : startsName .units c = false := by
  have hsign : isUnitSign c = false := by
    have hall : ∀ c ∈ ['$', '°', 'µ', 'Ω'], c.isDigit = false := by decide
    rw [Bool.eq_false_iff]
    intro hsign
    rw [hall c (mem_of_isUnitSign hsign)] at h
    cases h
  simp [startsName, Text.isWordStart_of_isDigit h, hsign]

theorem startsNumber_of_startsName {c : Char} (h : startsName .units c) (cs : List Char) :
    startsNumber c cs = false := by
  have hdigit : c.isDigit = false := by
    rw [Bool.eq_false_iff]
    intro hdigit
    rw [startsName_of_isDigit hdigit] at h
    cases h
  have hpoint : c ≠ '.' := by
    rintro rfl
    cases h
  simp [startsNumber, hdigit, hpoint]

section

variable {rules : ScanRules} {depth : Nat} {rest : List Char} {ks : List Token.Kind}

theorem nextPiece_of_startsName (hmode : rules.mode = .units) {c : Char}
    (h : startsName .units c) (depth : Nat) (cs : List Char) :
    nextPiece rules depth c cs =
      (.token (c :: cs.takeWhile (continuesName .units))
        (.ident (String.ofList (c :: cs.takeWhile (continuesName .units)))), depth) := by
  have hne : ∀ d ∈ nameBreaks, c ≠ d := by
    rintro d hd rfl
    rw [startsName_of_mem (List.mem_cons_of_mem _ hd)] at h
    cases h
  have hblank : Text.isBlank c = false := by
    rw [Bool.eq_false_iff]
    intro hblank
    rw [startsName_of_isBlank hblank] at h
    cases h
  rw [nextPiece.eq_def, if_neg (hne '\\' (by decide)), sign?_of_startsName h]
  simp [hne '&' (by decide), hne '%' (by decide), hne '~' (by decide), hblank,
    startsNumber_of_startsName h, h, namePiece, hmode]

theorem Scans.word (hmode : rules.mode = .units) {w : List Char} (hw : IsWord w)
    (hrest : Text.Stops (continuesName .units) rest) (others : Scans rules depth rest ks) :
    Scans rules depth (w ++ rest) (.ident (String.ofList w) :: ks) := by
  cases w with
  | nil => exact absurd hw id
  | cons c cs =>
    have next := nextPiece_of_startsName hmode hw.1 depth (cs ++ rest)
    rw [Text.takeWhile_append_of_stops hw.2 hrest] at next
    exact .token_append next others

theorem Scans.percent (hmode : rules.mode = .units) (others : Scans rules depth rest ks) :
    Scans rules depth ('%' :: rest) (.ident "%" :: ks) := by
  have next : nextPiece rules depth '%' rest = (.token ['%'] (.ident "%"), depth) := by
    rw [nextPiece.eq_def, if_neg (by decide)]
    simp [sign?, hmode]
  exact .token next others

theorem foldr_following (name cs : List Char) :
    name.foldr following (.ok cs) = .ok (name ++ cs) := by
  induction name with
  | nil => rfl
  | cons c name ih =>
    rw [List.foldr_cons, ih]
    rfl

theorem isAlpha_greek {letter : String} (h : letter ∈ greekLetters) :
    letter.toList ≠ [] ∧ ∀ c ∈ letter.toList, c.isAlpha := by
  have hletters : ∀ l ∈ greekLetters, l.toList ≠ [] ∧ ∀ c ∈ l.toList, c.isAlpha := by decide
  exact hletters letter h

/-- A Greek letter is a name, with what decorates it. -/
theorem nextPiece_letter {letter : String} {name : List Char} (h : letter ∈ greekLetters)
    (hrest : Text.Stops Char.isAlpha rest)
    (hname : decorate ('\\' :: letter.toList) rest = .ok name) :
    nextPiece rules depth '\\' (letter.toList ++ rest) =
      (.token name (.ident (String.ofList name)), depth) := by
  have hletters : ∀ l ∈ greekLetters, UnitText.wrappers.contains l = false ∧
      layoutCommands.contains l = false ∧ functionCommands.contains l = false := by
    decide
  obtain ⟨hwrapper, hlayout, hfunction⟩ := hletters letter h
  obtain ⟨hne, halpha⟩ := isAlpha_greek h
  rw [nextPiece_command hne halpha hrest]
  unfold commandPiece
  dsimp only
  rw [String.ofList_toList, hwrapper, hlayout, hfunction, hname]
  simp [h]

/-- Behind a blank a Greek letter has no subscripts and no primes. -/
theorem nextPiece_greek {letter : String} (h : letter ∈ greekLetters) (rest : List Char) :
    nextPiece rules depth '\\' (letter.toList ++ ' ' :: rest) =
      (.token ('\\' :: letter.toList) (.ident ("\\" ++ letter)), depth) := by
  have hbare : decorate ('\\' :: letter.toList) (' ' :: rest) =
      .ok ('\\' :: letter.toList ++ []) := by
    exact foldr_following _ _
  have hname : String.ofList ('\\' :: letter.toList) = "\\" ++ letter := by
    apply String.toList_inj.1
    simp
  rw [nextPiece_letter h (Text.stops_cons.2 rfl) hbare, List.append_nil, hname]

theorem Scans.greek {letter : String} (h : letter ∈ greekLetters)
    (others : Scans rules depth (' ' :: rest) ks) :
    Scans rules depth ('\\' :: (letter.toList ++ ' ' :: rest)) (.ident ("\\" ++ letter) :: ks) :=
  .token_append (nextPiece_greek h rest) others

theorem nextPiece_space (cs : List Char) : nextPiece rules depth ' ' cs = (.layout [' '], depth) := by
  rw [nextPiece.eq_def, if_neg (by decide)]
  simp [sign?, show Text.isBlank ' ' = true from rfl]

theorem Scans.space {cs : List Char} (others : Scans rules depth cs ks) :
    Scans rules depth (' ' :: cs) ks :=
  .layout (nextPiece_space cs) others

/-! ## What an identifier can be -/

theorem sign?_ne_ident {c : Char} {name : String} : sign? c ≠ some (.ident name) := by
  unfold sign?
  split <;> exact nofun

/-- A word, a percent sign, or a Greek letter as a command with its subscripts and primes. -/
inductive IsIdent : List Char → Prop where
  | word {w : List Char} (h : IsWord w ∨ w = ['%']) : IsIdent w
  | greek {letter : String} {cs more : List Char} (h : letter ∈ greekLetters)
      (hmore : decorationsFrom 0 cs = .ok more) : IsIdent ('\\' :: (letter.toList ++ more))

theorem decorate_eq_ok {name cs text : List Char} (h : decorate name cs = .ok text) :
    ∃ more, decorationsFrom 0 cs = .ok more ∧ text = name ++ more := by
  unfold decorate at h
  cases hmore : decorationsFrom 0 cs with
  | ok more =>
    rw [hmore, foldr_following] at h
    cases h
    exact ⟨more, rfl, rfl⟩
  | error fault =>
    rw [hmore] at h
    have herror : ∀ (name : List Char) (fault : Misread),
        ∃ fault', name.foldr following (.error fault) = .error fault' := by
      intro name fault
      induction name with
      | nil => exact ⟨fault, rfl⟩
      | cons c name ih =>
        obtain ⟨fault', hfault'⟩ := ih
        rw [List.foldr_cons, hfault']
        exact ⟨_, rfl⟩
    obtain ⟨fault', hfault'⟩ := herror name fault
    rw [hfault'] at h
    cases h

/-- Of the commands only the Greek letters are identifiers. -/
theorem ident_of_commandPiece {letters cs : List Char} {name : String}
    (h : (commandPiece depth letters cs).1.meaning = .token (.ident name)) :
    IsIdent name.toList := by
  have hcase := commandPiece_cases depth letters cs
  generalize commandPiece depth letters cs = next at h hcase
  cases hcase with
  | layout htext => cases h
  | token htext hkind => exact absurd (Meaning.token.inj h) (Token.Kind.ne_ident hkind name)
  | bracket htext hkind =>
    obtain rfl := Meaning.token.inj h
    simp at hkind
  | letter hgreek hname =>
    cases h
    obtain ⟨more, hmore, rfl⟩ := decorate_eq_ok hname
    have hletter := IsIdent.greek (List.contains_iff_mem.1 hgreek) hmore
    rw [String.toList_ofList] at hletter
    rwa [String.toList_ofList]
  | undecorated hfault => cases h
  | wrong htext hcode => cases h

theorem isIdent_percent : IsIdent "%".toList := .word (.inr rfl)

theorem ident_of_signPiece {mode : Mode} {c : Char} {name : String}
    (h : (signPiece mode depth c).meaning = .token (.ident name)) : IsIdent name.toList := by
  unfold signPiece at h
  dsimp only at h
  split at h
  · cases h
  split at h
  · cases h
  split at h
  · cases h
  split at h
  · cases h
  split at h
  · cases mode <;> cases h
    exact isIdent_percent
  · cases h

theorem ident_of_nextPiece (hmode : rules.mode = .units) {c : Char} {cs : List Char}
    {name : String} (h : (nextPiece rules depth c cs).1.meaning = .token (.ident name)) :
    IsIdent name.toList := by
  rw [nextPiece.eq_def, hmode] at h
  split at h
  · cases cs with
    | nil => cases h
    | cons d ds =>
      dsimp only at h
      split at h
      · exact ident_of_commandPiece h
      · exact ident_of_signPiece h
  split at h
  · rename_i kind hsign
    cases h
    exact absurd hsign sign?_ne_ident
  dsimp only at h
  split at h
  · cases h
  split at h
  · cases h
    exact isIdent_percent
  split at h
  · cases h
  split at h
  · unfold numberPiece at h
    split at h
    · cases h
    · split at h <;> cases h
  split at h
  · rename_i hstart
    unfold namePiece at h
    rw [hmode] at h
    cases h
    rw [String.toList_ofList]
    exact .word (.inl ⟨hstart, List.all_eq_true.1 List.all_takeWhile⟩)
  · cases h

/-- Whatever else is in a text, its identifiers are words, percent signs and Greek letters. -/
theorem ident_of_scans (hmode : rules.mode = .units) {cs : List Char} {name : String}
    (h : Scans rules depth cs ks) (hname : .ident name ∈ ks) : IsIdent name.toList := by
  induction h with
  | done => cases hname
  | token next others ih =>
    rcases List.mem_cons.1 hname with rfl | hname
    · exact ident_of_nextPiece hmode (by rw [next]; rfl)
    · exact ih hname
  | layout next others ih => exact ih hname

end

end Scan

end Worksheet
