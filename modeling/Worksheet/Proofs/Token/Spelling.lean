import Worksheet.Proofs.Text.Blank
import Worksheet.Proofs.Token.Numbers
import Worksheet.Proofs.Token.UnitText
import Worksheet.Proofs.Token.Words
import Worksheet.Rendering
/-!
# Spellings of units

A unit text in the spelling of LaTeX, the plain text that it stands for and the tokens of that. The
plain text stands for itself.
-/

namespace Worksheet

open Text

namespace Scan

/-! ## Symbols -/

/-- What can stand behind the name of a unit. -/
def fences : List Char := ['\\', '^', '*', '/', ')']

/-- A text is at its end, or goes on with something that ends a name. -/
def Fenced (cs : List Char) : Prop := ∀ c ∈ cs.head?, c ∈ fences

theorem Fenced.stops {p : Char → Bool} {cs : List Char} (h : Fenced cs)
    (hp : ∀ c ∈ fences, p c = false) : Stops p cs := fun c hc => hp c (h c hc)

theorem Fenced.dropWhile_space {cs : List Char} (h : Fenced cs) :
    cs.dropWhile (· = ' ') = cs :=
  dropWhile_of_stops (h.stops (by decide))

theorem Fenced.stops_name {cs : List Char} (h : Fenced cs) : Stops (continuesName .units) cs := by
  have hall : ∀ c ∈ fences, c ∈ nameBreaks := by decide
  exact h.stops fun c hc => continuesName_of_mem (hall c hc)

theorem fenced_nil : Fenced [] := nofun

theorem fenced_cons {c : Char} {cs : List Char} (h : c ∈ fences) : Fenced (c :: cs) := by
  intro d hd
  cases hd
  exact h

/-- A text that stands for the name of a unit, and its plain spelling. A blank at its end does not
count. -/
structure Spelled (text bare : List Char) (name : String) : Prop where
  begins : ∃ c cs, text = c :: cs ∧ isBlank c = false
  trimmed : UnitText.plain (trimEnd text) = bare
  plain_text : ∀ {rest : List Char}, Fenced rest →
    UnitText.plain (text ++ rest) = bare ++ UnitText.plain rest
  plain_bare : ∀ {rest : List Char}, Fenced rest →
    UnitText.plain (bare ++ rest) = bare ++ UnitText.plain rest
  scans : ∀ {rules : ScanRules} {depth : Nat} {rest : List Char} {ks : List Token.Kind},
    rules.mode = .units → Fenced rest → Scans rules depth rest ks →
      Scans rules depth (bare ++ rest) (.ident name :: ks)

theorem Spelled.stops {text bare : List Char} {name : String} (h : Spelled text bare name) :
    Stops isBlank text ∧ text ≠ [] := by
  obtain ⟨c, cs, rfl, hc⟩ := h.begins
  exact ⟨stops_cons.2 hc, List.cons_ne_nil c cs⟩

theorem stops_space {cs : List Char} (h : Stops isBlank cs) : Stops (· = ' ') cs := by
  intro c hc
  refine decide_eq_false fun hspace => ?_
  have hblank := h c hc
  rw [hspace] at hblank
  exact absurd hblank (by decide)

/-- How a character of a symbol is written. -/
def written (c : Char) : List Char :=
  if c = 'µ' then "\\mu ".toList
  else if c = 'Ω' then "\\Omega ".toList
  else if c = '%' then "\\%".toList
  else if c = '°' then "^\x7b\\circ\x7d".toList
  else [c]

theorem toList_symbolText (symbol : String) :
    (Rendering.symbolText symbol).toList = symbol.toList.flatMap written :=
  String.toList_ofList

theorem written_begins {c : Char} (hblank : isBlank c = false) :
    ∃ d ds, written c = d :: ds ∧ isBlank d = false := by
  unfold written
  split_ifs
  · exact ⟨'\\', _, rfl, by decide⟩
  · exact ⟨'\\', _, rfl, by decide⟩
  · exact ⟨'\\', _, rfl, by decide⟩
  · exact ⟨'^', _, rfl, by decide⟩
  · exact ⟨c, [], rfl, hblank⟩

/-- Trimming a symbol takes the space of its last command away. -/
theorem plain_trimEnd_written {c : Char} (hc : c ∉ ['\\', '~', '^', ' ']) (hblank : isBlank c = false) :
    trimEnd (written c) ≠ [] ∧ Stops (· = ' ') (trimEnd (written c)) ∧
      UnitText.plain (trimEnd (written c)) = [c] := by
  unfold written
  split_ifs with hmu hOmega hpercent hdegree
  · rw [hmu]
    exact ⟨by decide, stops_cons.2 (by decide), by decide⟩
  · rw [hOmega]
    exact ⟨by decide, stops_cons.2 (by decide), by decide +kernel⟩
  · rw [hpercent]
    exact ⟨by decide, stops_cons.2 (by decide), by decide⟩
  · rw [hdegree]
    exact ⟨by decide, stops_cons.2 (by decide), by decide⟩
  · have htrim : trimEnd [c] = [c] := trimEnd_concat hblank []
    rw [htrim, UnitText.plain_cons (fun hmem => hc (List.mem_append_left [' '] hmem))]
    have hspace : c ≠ ' ' := fun heq => by simp [heq] at hc
    exact ⟨List.cons_ne_nil c [], stops_cons.2 (by simpa using hspace), rfl⟩

theorem stops_written {w rest : List Char} (hw : ' ' ∉ w) (hrest : Stops (· = ' ') rest) :
    Stops (· = ' ') (w.flatMap written ++ rest) := by
  cases w with
  | nil => exact hrest
  | cons c w =>
    have hc : c ≠ ' ' := fun heq => hw (heq ▸ List.mem_cons_self)
    rw [List.flatMap_cons, written]
    split_ifs <;> simp [hc]

/-- The way to write a character takes the commands out again. -/
theorem plain_written {c : Char} (hc : c ∉ ['\\', '~', '^', ' ']) {cs : List Char}
    (hcs : Stops (· = ' ') cs) : UnitText.plain (written c ++ cs) = c :: UnitText.plain cs := by
  have hdrop := dropWhile_of_stops hcs
  have hcommand : ∀ name : List Char, name ≠ [] → (∀ d ∈ name, d.isAlpha) →
      UnitText.plain ('\\' :: (name ++ ' ' :: cs)) =
        UnitText.commandText (String.ofList name) ++ UnitText.plain cs := by
    intro name hne hname
    rw [UnitText.plain_command hne hname (stops_cons.2 (by decide))]
    simp [hdrop]
  unfold written
  split_ifs with hmu hOmega hpercent hdegree
  · rw [hmu]
    exact hcommand "mu".toList (by decide) (by decide)
  · rw [hOmega]
    exact hcommand "Omega".toList (by decide) (by decide)
  · rw [hpercent]
    exact UnitText.plain_percent cs
  · rw [hdegree, UnitText.plain_degree, hdrop]
  · exact UnitText.plain_cons (fun hmem => hc (List.mem_append_left [' '] hmem)) cs

theorem plain_symbol {w rest : List Char} (hw : ∀ c ∈ w, c ∉ ['\\', '~', '^', ' '])
    (hrest : Stops (· = ' ') rest) :
    UnitText.plain (w.flatMap written ++ rest) = w ++ UnitText.plain rest := by
  induction w with
  | nil => rfl
  | cons c w ih =>
    obtain ⟨hc, hw⟩ := List.forall_mem_cons.1 hw
    have hspace : ' ' ∉ w := fun hmem => hw ' ' hmem (by decide)
    rw [List.flatMap_cons, List.append_assoc, plain_written hc (stops_written hspace hrest), ih hw,
      List.cons_append]

theorem IsWord.not_mem {w : List Char} (h : IsWord w) {c : Char} (hc : c ∈ nameBreaks) : c ∉ w := by
  cases w with
  | nil => exact List.not_mem_nil
  | cons d w =>
    intro hmem
    rcases List.mem_cons.1 hmem with rfl | hmem
    · have hstart := h.1
      rw [startsName_of_mem (List.mem_cons_of_mem _ hc)] at hstart
      cases hstart
    · have hcontinue := h.2 c hmem
      rw [continuesName_of_mem hc] at hcontinue
      cases hcontinue

theorem IsWord.not_isBlank {w : List Char} (h : IsWord w) : ∀ c ∈ w, isBlank c = false := by
  intro c hc
  rw [Bool.eq_false_iff]
  intro hblank
  cases w with
  | nil => cases hc
  | cons d w =>
    rcases List.mem_cons.1 hc with rfl | hc
    · have hstart := h.1
      rw [startsName_of_isBlank hblank] at hstart
      cases hstart
    · have hcontinue := h.2 c hc
      rw [continuesName_of_isBlank hblank] at hcontinue
      cases hcontinue

theorem spelled_word {w : List Char} (h : IsWord w ∨ w = ['%']) :
    Spelled (Rendering.symbolText (String.ofList w)).toList w (String.ofList w) := by
  have hw : ∀ c ∈ w, c ∉ ['\\', '~', '^', ' '] := by
    intro c hc hmem
    have hbreaks : ∀ c ∈ ['\\', '~', '^', ' '], c ∈ nameBreaks ∧ c ∉ ['%'] := by decide
    rcases h with h | rfl
    · exact h.not_mem (hbreaks c hmem).1 hc
    · exact (hbreaks c hmem).2 hc
  have hblank : ∀ c ∈ w, isBlank c = false := by
    rcases h with h | rfl
    · exact h.not_isBlank
    · decide
  have hne : w ≠ [] := by
    rintro rfl
    rcases h with h | h
    · exact h
    · cases h
  have htext : (Rendering.symbolText (String.ofList w)).toList = w.flatMap written := by
    rw [toList_symbolText, String.toList_ofList]
  rw [htext]
  refine ⟨?_, ?_, fun {rest} hrest => ?_, fun {rest} _ => ?_,
    fun {rules depth rest ks} hmode hrest hks => ?_⟩
  · obtain ⟨c, w, rfl⟩ := List.exists_cons_of_ne_nil hne
    obtain ⟨d, ds, hwritten, hd⟩ := written_begins (hblank c List.mem_cons_self)
    exact ⟨d, ds ++ w.flatMap written, by rw [List.flatMap_cons, hwritten, List.cons_append], hd⟩
  · -- only the last character can leave a blank at the end
    obtain ⟨front, c, rfl⟩ := (List.eq_nil_or_concat' w).resolve_left hne
    have hlast := List.mem_append_right front (List.mem_singleton.2 (Eq.refl c))
    obtain ⟨htrim, hstops, hplain⟩ := plain_trimEnd_written (hw c hlast) (hblank c hlast)
    rw [List.flatMap_append, List.flatMap_singleton, trimEnd_append, if_neg htrim,
      plain_symbol (fun d hd => hw d (List.mem_append_left _ hd)) hstops, hplain]
  · exact plain_symbol hw (hrest.stops (by decide))
  · exact UnitText.plain_append (fun c hc hmem => hw c hc (List.mem_append_left [' '] hmem)) rest
  · rcases h with h | rfl
    · exact .word hmode h hrest.stops_name hks
    · exact .percent hmode hks

/-- What is left of a Greek letter when a unit text is plain: two letters have a sign of their own
that units are spelled with. -/
def greekName (letter : String) : String :=
  if letter = "mu" then "µ" else if letter = "Omega" then "Ω" else "\\" ++ letter

theorem trimEnd_greek {letter : String} (h : letter ∈ greekLetters) :
    trimEnd ('\\' :: letter.toList) = '\\' :: letter.toList := by
  have hletters : ∀ l ∈ greekLetters, trimEnd ('\\' :: l.toList) = '\\' :: l.toList := by
    decide
  exact hletters letter h

theorem toList_symbolText_greek {letter : String} (h : letter ∈ greekLetters) :
    (Rendering.symbolText ("\\" ++ letter)).toList = '\\' :: letter.toList := by
  have hletters : ∀ l ∈ greekLetters,
      (Rendering.symbolText ("\\" ++ l)).toList = '\\' :: l.toList := by
    decide
  exact hletters letter h

/-- A Greek letter as a command, which the plain text sets off by a space. -/
theorem spelled_command {letter : String} (h : letter ∈ greekLetters)
    (hcommand : UnitText.commandText letter = '\\' :: (letter.toList ++ [' '])) :
    Spelled ('\\' :: letter.toList) ('\\' :: (letter.toList ++ [' '])) ("\\" ++ letter) := by
  obtain ⟨hne, halpha⟩ := isAlpha_greek h
  refine ⟨⟨'\\', _, rfl, by decide⟩, ?_, fun {rest} hrest => ?_, fun {rest} hrest => ?_,
    fun _ _ hks => ?_⟩
  · rw [trimEnd_greek h]
    have hplain := UnitText.plain_command hne halpha stops_nil
    simpa [hcommand] using hplain
  · rw [List.cons_append, UnitText.plain_command hne halpha (hrest.stops (by decide)),
      hrest.dropWhile_space, String.ofList_toList, hcommand]
  · have hspace : Stops Char.isAlpha (' ' :: rest) := stops_cons.2 (by decide)
    rw [List.cons_append, List.append_assoc, List.singleton_append,
      UnitText.plain_command hne halpha hspace, String.ofList_toList, hcommand]
    simp [hrest.dropWhile_space]
  · rw [List.cons_append, List.append_assoc]
    exact .greek h hks.space

/-- A Greek letter that stands for a sign of units. -/
theorem spelled_sign {letter : String} {sign : Char} (h : letter ∈ greekLetters)
    (hsign : sign = 'µ' ∨ sign = 'Ω') (hcommand : UnitText.commandText letter = [sign]) :
    Spelled ('\\' :: letter.toList) [sign] (String.singleton sign) := by
  obtain ⟨hne, halpha⟩ := isAlpha_greek h
  refine ⟨⟨'\\', _, rfl, by decide⟩, ?_, fun {rest} hrest => ?_, fun {rest} _ => ?_,
    fun hmode hrest hks => ?_⟩
  · rw [trimEnd_greek h]
    have hplain := UnitText.plain_command hne halpha stops_nil
    simpa [hcommand] using hplain
  · rw [List.cons_append, UnitText.plain_command hne halpha (hrest.stops (by decide)),
      hrest.dropWhile_space, String.ofList_toList, hcommand]
  · rcases hsign with rfl | rfl <;> exact UnitText.plain_cons (by decide) rest
  · have hword : IsWord [sign] := by
      rcases hsign with rfl | rfl <;> exact ⟨by simp [startsName, isUnitSign], by simp⟩
    exact .word hmode hword hrest.stops_name hks

theorem spelled_greek {letter : String} (h : letter ∈ greekLetters) :
    ∃ bare, Spelled (Rendering.symbolText ("\\" ++ letter)).toList bare (greekName letter) := by
  have hletters : ∀ l ∈ greekLetters,
      greekName l = "\\" ++ l ∧ UnitText.commandText l = '\\' :: (l.toList ++ [' ']) ∨
        greekName l = "µ" ∧ UnitText.commandText l = ['µ'] ∨
        greekName l = "Ω" ∧ UnitText.commandText l = ['Ω'] := by
    decide
  rw [toList_symbolText_greek h]
  obtain ⟨hname, hcommand⟩ | ⟨hname, hcommand⟩ | ⟨hname, hcommand⟩ := hletters letter h
  · rw [hname]
    exact ⟨_, spelled_command h hcommand⟩
  · rw [hname]
    exact ⟨_, spelled_sign h (.inl rfl) hcommand⟩
  · rw [hname]
    exact ⟨_, spelled_sign h (.inr rfl) hcommand⟩

/-! ## Texts -/

/-- An exponent in braces. -/
def exponentText (n : Int) : List Char := "^\x7b".toList ++ (toString n).toList ++ ['\x7d']

def exponentKinds (n : Int) : List Token.Kind := .exp :: .lbrace :: (intKinds n ++ [.rbrace])

/-- A unit text, its plain spelling and the tokens of that. -/
inductive Spells : List Char → List Char → List Token.Kind → Prop where
  | nil : Spells [] [] []
  | unit {text bare rest bareRest : List Char} {name : String} {ks : List Token.Kind}
      (h : Spelled text bare name) (hrest : Fenced rest) (hbare : Fenced bareRest)
      (others : Spells rest bareRest ks) :
      Spells (text ++ rest) (bare ++ bareRest) (.ident name :: ks)
  | exponent (n : Int) {rest bareRest : List Char} {ks : List Token.Kind}
      (others : Spells rest bareRest ks) :
      Spells (exponentText n ++ rest) (exponentText n ++ bareRest) (exponentKinds n ++ ks)
  | times {rest bareRest : List Char} {ks : List Token.Kind} (hrest : Stops (· = ' ') rest)
      (others : Spells rest bareRest ks) :
      Spells ("\\cdot ".toList ++ rest) ('*' :: bareRest) (.mul :: ks)
  | sign {c : Char} {kind : Token.Kind} {rest bareRest : List Char} {ks : List Token.Kind}
      (hc : c ∈ ['/', '(', ')']) (hkind : sign? c = some kind) (others : Spells rest bareRest ks) :
      Spells (c :: rest) (c :: bareRest) (kind :: ks)
  | one {rest bareRest : List Char} {ks : List Token.Kind} (hrest : Fenced rest)
      (hbare : Fenced bareRest) (others : Spells rest bareRest ks) :
      Spells ('1' :: rest) ('1' :: bareRest) (.num "1" :: ks)

theorem plain_exponent (n : Int) (rest : List Char) :
    UnitText.plain (exponentText n ++ rest) = exponentText n ++ UnitText.plain rest := by
  have hnone : ∀ c ∈ ['\\', '~', '^'], c.isDigit = false ∧ c ≠ '-' := by decide
  have hdigits : ∀ c ∈ (toString n).toList, c ∉ ['\\', '~', '^'] := by
    intro c hc hmem
    rcases Number.Numeral.mem_toString_int hc with hdigit | rfl
    · rw [(hnone c hmem).1] at hdigit
      cases hdigit
    · exact (hnone '-' hmem).2 rfl
  obtain ⟨c, cs, hcs⟩ := List.exists_cons_of_ne_nil (Number.Numeral.toString_int_ne_nil n)
  rw [hcs] at hdigits
  have hc : c ≠ '\\' := by
    rintro rfl
    exact hdigits '\\' List.mem_cons_self (by decide)
  have hgroup : ∀ d ∈ '\x7b' :: c :: (cs ++ ['\x7d']), d ∉ ['\\', '~', '^'] := by
    intro d hd
    rcases List.mem_cons.1 hd with rfl | hd
    · decide
    · rw [← List.cons_append] at hd
      rcases List.mem_append.1 hd with hd | hd
      · exact hdigits d hd
      · rw [List.mem_singleton.1 hd]
        decide
  have htext : exponentText n = '^' :: '\x7b' :: c :: (cs ++ ['\x7d']) := by
    rw [exponentText, hcs]
    rfl
  rw [htext]
  calc UnitText.plain ('^' :: '\x7b' :: c :: (cs ++ ['\x7d'] ++ rest))
      = '^' :: UnitText.plain ('\x7b' :: c :: (cs ++ ['\x7d']) ++ rest) :=
        UnitText.plain_raised hc _
    _ = '^' :: '\x7b' :: c :: (cs ++ ['\x7d']) ++ UnitText.plain rest := by
        rw [UnitText.plain_append hgroup]
        rfl

variable {text bare : List Char} {ks : List Token.Kind}

/-- A unit text becomes its plain spelling. -/
theorem Spells.plain_text (h : Spells text bare ks) : UnitText.plain text = bare := by
  induction h with
  | nil => rfl
  | unit h hrest hbare others ih => rw [h.plain_text hrest, ih]
  | exponent n others ih => rw [plain_exponent, ih]
  | @times rest bareRest ks hrest others ih =>
    have hcommand : UnitText.plain ('\\' :: ("cdot".toList ++ ' ' :: rest)) =
        UnitText.commandText "cdot" ++ UnitText.plain rest := by
      rw [UnitText.plain_command (by decide) (by decide) (stops_cons.2 (by decide))]
      simp [dropWhile_of_stops hrest]
    rw [← ih]
    exact hcommand
  | sign hc hkind others ih =>
    have hall : ∀ c ∈ ['/', '(', ')'], c ∉ ['\\', '~', '^'] := by decide
    rw [UnitText.plain_cons (hall _ hc), ih]
  | one hrest hbare others ih => rw [UnitText.plain_cons (by decide), ih]

theorem Fenced.trimEnd {cs : List Char} (h : Fenced cs) : Fenced (trimEnd cs) :=
  fun c hc => h c (head?_trimEnd hc)

/-- A unit text becomes the same plain spelling without the blank at its end. -/
theorem Spells.plain_trimEnd (h : Spells text bare ks) : UnitText.plain (trimEnd text) = bare := by
  induction h with
  | nil => rfl
  | @unit text bare rest bareRest name ks h hrest hbare others ih =>
    rw [trimEnd_append]
    split_ifs with hnil
    · rw [h.trimmed, ← ih, hnil]
      simp
    · rw [h.plain_text hrest.trimEnd, ih]
  | @exponent n rest bareRest ks others ih =>
    have htrim : trimEnd (exponentText n) = exponentText n :=
      trimEnd_concat (by decide) ("^\x7b".toList ++ (toString n).toList)
    rw [trimEnd_append_of_trimmed htrim, plain_exponent, ih]
  | @times rest bareRest ks hrest others ih =>
    rw [trimEnd_append]
    split_ifs with hnil
    · rw [← ih, hnil]
      decide
    · have htrim : Stops (· = ' ') (trimEnd rest) := fun c hc => hrest c (head?_trimEnd hc)
      have hcommand : UnitText.plain ('\\' :: ("cdot".toList ++ ' ' :: trimEnd rest)) =
          UnitText.commandText "cdot" ++ UnitText.plain (trimEnd rest) := by
        rw [UnitText.plain_command (by decide) (by decide) (stops_cons.2 (by decide))]
        simp [dropWhile_of_stops htrim]
      rw [← ih]
      exact hcommand
  | @sign c kind rest bareRest ks hc hkind others ih =>
    have hall : ∀ c ∈ ['/', '(', ')'], c ∉ ['\\', '~', '^'] ∧ isBlank c = false := by decide
    have htrim : trimEnd [c] = [c] := trimEnd_concat (hall c hc).2 []
    have hwhole := trimEnd_append_of_trimmed htrim rest
    rw [List.singleton_append] at hwhole
    rw [hwhole, List.singleton_append, UnitText.plain_cons (hall c hc).1, ih]
  | @one rest bareRest ks hrest hbare others ih =>
    have hwhole := trimEnd_append_of_trimmed (show trimEnd ['1'] = ['1'] by decide) rest
    rw [List.singleton_append] at hwhole
    rw [hwhole, List.singleton_append, UnitText.plain_cons (by decide), ih]

/-- The plain spelling stands for itself. -/
theorem Spells.plain_bare (h : Spells text bare ks) : UnitText.plain bare = bare := by
  induction h with
  | nil => rfl
  | unit h hrest hbare others ih => rw [h.plain_bare hbare, ih]
  | exponent n others ih => rw [plain_exponent, ih]
  | times hrest others ih => rw [UnitText.plain_cons (by decide), ih]
  | sign hc hkind others ih =>
    have hall : ∀ c ∈ ['/', '(', ')'], c ∉ ['\\', '~', '^'] := by decide
    rw [UnitText.plain_cons (hall _ hc), ih]
  | one hrest hbare others ih => rw [UnitText.plain_cons (by decide), ih]

theorem Scans.exponent {rules : ScanRules} {depth : Nat} {rest : List Char} (n : Int)
    (others : Scans rules depth rest ks) :
    Scans rules depth (exponentText n ++ rest) (exponentKinds n ++ ks) := by
  have hclosed : Scans rules depth ((toString n).toList ++ '\x7d' :: rest)
      (intKinds n ++ .rbrace :: ks) :=
    .int n (Number.Numeral.stops_goesOn (by decide) _) (.sign rfl others)
  have hopened := Scans.sign (show sign? '^' = some .exp from rfl)
    (.sign (show sign? '\x7b' = some .lbrace from rfl) hclosed)
  simpa [exponentText, exponentKinds] using hopened

/-- The plain spelling is cut into the tokens. -/
theorem Spells.scans {rules : ScanRules} (hmode : rules.mode = .units) (depth : Nat)
    (h : Spells text bare ks) : Scans rules depth bare ks := by
  induction h with
  | nil => exact .done
  | unit h hrest hbare others ih => exact h.scans hmode hbare ih
  | exponent n others ih => exact .exponent n ih
  | times hrest others ih => exact .sign rfl ih
  | sign hc hkind others ih => exact .sign hkind ih
  | @one rest bareRest ks hrest hbare others ih =>
    have hdigit : Number.Numeral.IsPlain ['1'] := .whole (by decide) (by decide)
    have hall : ∀ c ∈ fences, c ∈ Number.Numeral.numberBreaks := by decide
    have hstops := hbare.stops fun c hc => Number.Numeral.goesOn_of_mem (hall c hc)
    exact .number hdigit hstops ih

end Scan

end Worksheet
