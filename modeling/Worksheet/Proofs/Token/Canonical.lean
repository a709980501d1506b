import Worksheet.Proofs.Name
import Worksheet.Proofs.Token.Operator
/-!
# Canonical names in a text

The canonical spelling of an identifier is an identifier again, if its subscripts are runs of
letters and digits: the braces that hold anything else together are gone.
-/

namespace Worksheet

open Text

namespace Scan

variable {cs ds base rest more after : List Char}

/-- What is behind an underscore begins with a run of letters and digits, in braces or not. -/
def beginsRun : List Char → Bool
  | '\x7b' :: cs =>
    !(cs.takeWhile isLetterOrNumber).isEmpty &&
      (cs.dropWhile isLetterOrNumber).head? = some '\x7d'
  | cs => cs.head?.any isLetterOrNumber

/-- Every subscript is a run of letters and digits. -/
def plainSubscripts : List Char → Bool
  | [] => true
  | c :: cs => (c != '_' || beginsRun cs) && plainSubscripts cs

theorem plainSubscripts_of_append (h : plainSubscripts (cs ++ ds)) : plainSubscripts ds := by
  induction cs with
  | nil => exact h
  | cons c cs ih =>
    rw [List.cons_append, plainSubscripts, Bool.and_eq_true] at h
    exact ih h.2

theorem beginsRun_of_plain (h : plainSubscripts ('_' :: cs)) : beginsRun cs := by
  rw [plainSubscripts, Bool.and_eq_true] at h
  simpa using h.1

/-- The braces around a subscript that is a run. -/
theorem isLetterOrNumber_of_group {body : List Char} (h : untilClosed 0 cs = some (body, rest))
    (hrun : beginsRun ('\x7b' :: (body ++ '\x7d' :: after))) :
    body ≠ [] ∧ ∀ c ∈ body, isLetterOrNumber c := by
  simp only [beginsRun, Bool.and_eq_true, decide_eq_true_eq, Bool.not_eq_true',
    List.isEmpty_eq_false_iff] at hrun
  obtain ⟨hne, hclose⟩ := hrun
  have hsplit := @List.takeWhile_append_dropWhile _ isLetterOrNumber (body ++ '\x7d' :: after)
  have hall : ∀ c ∈ (body ++ '\x7d' :: after).takeWhile isLetterOrNumber, isLetterOrNumber c :=
    List.all_eq_true.1 List.all_takeWhile
  obtain ⟨others, hothers⟩ := List.head?_eq_some_iff.1 hclose
  rw [hothers] at hsplit
  generalize (body ++ '\x7d' :: after).takeWhile isLetterOrNumber = run at hne hsplit hall
  have hclosed : untilClosed 0 (run ++ '\x7d' :: others) = some (run, others) :=
    (balanced_of_chars fun c hc => not_mem_braces_of_isLetterOrNumber (hall c hc)).untilClosed _
  rw [hsplit, untilClosed_body h] at hclosed
  cases hclosed
  exact ⟨hne, hall⟩

/-! ## Subscripts and primes in canonical spelling -/

/-- Subscripts without braces, and primes as apostrophes. -/
inductive Marked : List Char → Prop where
  | nil : Marked []
  | run {run more : List Char} (hne : run ≠ []) (hrun : ∀ c ∈ run, isLetterOrNumber c)
      (others : Marked more) : Marked ('_' :: (run ++ more))
  | command {name more : List Char} (hne : name ≠ []) (halpha : ∀ c ∈ name, c.isAlpha)
      (others : Marked more) : Marked ('_' :: '\\' :: (name ++ more))
  | prime {more : List Char} (others : Marked more) : Marked ('\'' :: more)

theorem Marked.stops (h : Marked more) {p : Char → Bool} (hsub : p '_' = false)
    (hprime : p '\'' = false) : Stops p more := by
  cases h with
  | nil => exact stops_nil
  | run | command => exact stops_cons.2 hsub
  | prime => exact stops_cons.2 hprime

theorem decorationsFrom_length (h : decorationsFrom 0 rest = .ok more) (front : List Char) :
    decorationsFrom front.length (front ++ rest) = .ok (front ++ more) := by
  induction front with
  | nil => exact h
  | cons c front ih =>
    rw [List.length_cons, List.cons_append, decorationsFrom, ih]
    rfl

theorem decorationsFrom_cons {c : Char} {first : List Char}
    (hfirst : decoration (c :: (first ++ rest)) = .ok (c :: first))
    (h : decorationsFrom 0 rest = .ok more) :
    decorationsFrom 0 (c :: (first ++ rest)) = .ok (c :: (first ++ more)) := by
  rw [decorationsFrom, hfirst]
  dsimp only
  rw [decorationsFrom_length h]
  rfl

/-- They are all read, behind a name. -/
theorem Marked.decorationsFrom (h : Marked more) : decorationsFrom 0 more = .ok more := by
  induction h with
  | nil => rfl
  | @run run more hne hrun others ih =>
    refine decorationsFrom_cons ?_ ih
    have hstops : Stops isLetterOrNumber more :=
      others.stops (by decide) (by decide)
    have htake := takeWhile_append_of_stops hrun hstops
    obtain ⟨c, run, rfl⟩ := List.exists_cons_of_ne_nil hne
    have hbrace := not_mem_braces_of_isLetterOrNumber (hrun c List.mem_cons_self)
    simp only [List.mem_cons, List.not_mem_nil, or_false, not_or] at hbrace
    rw [List.cons_append] at htake ⊢
    rw [decoration.eq_3 _ (by simp [hbrace]) (by simp [hbrace]), htake]
  | @command name more hne halpha others ih =>
    have hstops : Stops Char.isAlpha more := others.stops (by decide) (by decide)
    refine @decorationsFrom_cons _ _ _ ('\\' :: name) ?_ ih
    rw [List.cons_append, decoration, takeWhile_append_of_stops halpha hstops]
    obtain ⟨c, name, rfl⟩ := List.exists_cons_of_ne_nil hne
    rfl
  | prime others ih =>
    exact @decorationsFrom_cons _ _ _ [] rfl ih

/-! ## Names -/

/-- A name without subscripts and primes. -/
inductive IsBase : List Char → Prop where
  | word {base : List Char} (h : IsBareWord base) : IsBase base
  | greek {letter : String} (h : letter ∈ greekLetters) : IsBase ('\\' :: letter.toList)

theorem EquationIdent.split (h : EquationIdent cs) :
    ∃ base rest more, IsBase base ∧ decorationsFrom 0 rest = .ok more ∧ cs = base ++ more := by
  cases h with
  | word h hmore => exact ⟨_, _, _, .word h, hmore, rfl⟩
  | greek h hmore => exact ⟨_, _, _, .greek h, hmore, rfl⟩

theorem decorate_of_decorationsFrom (h : decorationsFrom 0 rest = .ok more) (name : List Char) :
    decorate name rest = .ok (name ++ more) := by
  rw [decorate, h, foldr_following]

/-- A name with subscripts and primes in canonical spelling is one piece. -/
theorem IsBase.next (hbase : IsBase base) (hmore : Marked more) (depth : Nat) :
    ∃ c cs, base ++ more = c :: cs ∧ nextPiece { mode := .equation } depth c cs =
      (.token (c :: cs) (.ident (String.ofList (c :: cs))), depth) := by
  cases hbase with
  | word h =>
    cases base with
    | nil => exact absurd h id
    | cons c run =>
      obtain ⟨hstart, hrun⟩ := h
      have hstops : Stops (continuesName .equation) more :=
        hmore.stops (by decide) (by decide)
      refine ⟨c, run ++ more, rfl, ?_⟩
      rw [nextPiece_of_wordStart rfl hstart]
      simp [namePiece, takeWhile_append_of_stops hrun hstops,
        dropWhile_append_of_stops hrun hstops, decorate_of_decorationsFrom hmore.decorationsFrom]
  | @greek letter h =>
    exact ⟨'\\', letter.toList ++ more, rfl, nextPiece_letter h
      (hmore.stops (by decide) (by decide)) (decorate_of_decorationsFrom hmore.decorationsFrom _)⟩

theorem IsBase.isName (hbase : IsBase base) (hmore : Marked more) :
    IsName (String.ofList (base ++ more)) := by
  obtain ⟨c, cs, hname, next⟩ := hbase.next hmore 0
  have htokens := @tokensFrom_token { mode := .equation } 0 0 cs _ c []
    (by rwa [List.append_nil]) 0
  rw [List.append_nil] at htokens
  rw [hname, IsName, String.toList_ofList, ← Nat.zero_add (byteSize (c :: cs))]
  change tokensFrom _ 0 0 (String.ofList (c :: cs)).toList = _
  rw [String.toList_ofList, htokens]
  rfl

/-! ## Spelling subscripts and primes canonically -/

theorem isLayout_of_isLetterOrNumber {c : Char} (h : isLetterOrNumber c) :
    Name.isLayout c = false := by
  have hbrace := not_mem_braces_of_isLetterOrNumber h
  simp only [List.mem_cons, List.not_mem_nil, or_false, not_or] at hbrace
  simp [Name.isLayout, hbrace, isBlank_of_isLetterOrNumber h]

/-- A mark without layout and without commands, which leaves the name what it is where it takes the
place of another one. -/
structure Respells (first mark : List Char) : Prop where
  marked : ∀ {more}, Marked more → Marked (mark ++ more)
  plain : ∀ c ∈ mark, Name.isLayout c = false ∧ c ≠ '\\'
  alike : ∀ front back, Relation.EqvGen Name.Respelled (front ++ (first ++ back))
    (front ++ (mark ++ back))

theorem respells_run {run : List Char} (hne : run ≠ []) (hrun : ∀ c ∈ run, isLetterOrNumber c) :
    Respells ('_' :: run) ('_' :: run) where
  marked := .run hne hrun
  plain := by
    refine List.forall_mem_cons.2 ⟨by decide, fun c hc => ?_⟩
    have hbrace := not_mem_braces_of_isLetterOrNumber (hrun c hc)
    exact ⟨isLayout_of_isLetterOrNumber (hrun c hc), fun heq => hbrace (heq ▸ List.mem_cons_self)⟩
  alike _ _ := .refl _

/-- Without its braces. -/
theorem respells_group {run : List Char} (hne : run ≠ []) (hrun : ∀ c ∈ run, isLetterOrNumber c) :
    Respells ('_' :: '\x7b' :: run ++ ['\x7d']) ('_' :: run) where
  marked := .run hne hrun
  plain := (respells_run hne hrun).plain
  alike front back := by
    have hopen : Name.Respelled (front ++ ['_'] ++ '\x7b' :: (run ++ '\x7d' :: back))
        (front ++ ['_'] ++ (run ++ '\x7d' :: back)) := .layout (by decide) _ _
    have hclose : Name.Respelled (front ++ '_' :: run ++ '\x7d' :: back)
        (front ++ '_' :: run ++ back) := .layout (by decide) _ _
    simp only [List.append_assoc, List.cons_append, List.nil_append] at hopen hclose ⊢
    exact .trans _ _ _ (.rel _ _ hopen) (.rel _ _ hclose)

theorem respells_prime {written : List Char} (h : written ∈ ['\''] :: Name.superscripts) :
    Respells written ['\''] where
  marked := .prime
  plain := by decide
  alike front back := by
    rcases List.mem_cons.1 h with rfl | h
    · exact .refl _
    · have hprime := Name.Respelled.prime h front back
      rw [List.append_assoc] at hprime
      exact .symm _ _ (.rel _ _ hprime)

theorem exists_respells {first : List Char} (h : decoration rest = .ok first) (hne : first ≠ [])
    (hplain : plainSubscripts (first ++ after)) : ∃ mark, Respells first mark := by
  unfold decoration at h
  split at h
  · split at h
    · rename_i body _ hbody
      cases h
      have hgroup : beginsRun ('\x7b' :: (body ++ '\x7d' :: after)) :=
        beginsRun_of_plain (by simpa using hplain)
      obtain ⟨hne, hrun⟩ := isLetterOrNumber_of_group hbody hgroup
      exact ⟨_, respells_group hne hrun⟩
    · cases h
  · split at h
    · cases h
    · cases h
      have hslash : isLetterOrNumber '\\' := beginsRun_of_plain hplain
      exact absurd hslash (by decide)
  · split at h
    · cases h
    · rename_i hrun
      cases h
      exact ⟨_, respells_run hrun (List.all_eq_true.1 List.all_takeWhile)⟩
  · cases h
    exact ⟨_, respells_prime (by decide)⟩
  · dsimp only at h
    split at h
    · cases h
      exact ⟨_, respells_prime (by decide)⟩
    split at h
    · cases h
      exact ⟨_, respells_prime (by decide)⟩
    · cases h
      exact absurd rfl hne

theorem exists_marked {rest more : List Char} (h : decorationsFrom 0 rest = .ok more)
    (hplain : plainSubscripts (more ++ after)) : ∃ marks, Marked marks ∧ Respells more marks := by
  rcases decorationsFrom_eq_ok h with rfl | ⟨first, rest', others, hfirst, hne, hcs, hothers, rfl⟩
  · exact ⟨[], .nil, id, nofun, fun _ _ => .refl _⟩
  · have hpos := List.length_pos_iff.2 hne
    have hlt : rest'.length < rest.length := by
      rw [hcs, List.length_append]
      omega
    rw [List.append_assoc] at hplain
    obtain ⟨mark, hmark⟩ := exists_respells hfirst hne hplain
    obtain ⟨marks, hmarks, hrespells⟩ := exists_marked hothers (plainSubscripts_of_append hplain)
    refine ⟨mark ++ marks, hmark.marked hmarks, fun hmore => ?_, ?_, fun front back => ?_⟩
    · rw [List.append_assoc]
      exact hmark.marked (hrespells.marked hmore)
    · exact List.forall_mem_append.2 ⟨hmark.plain, hrespells.plain⟩
    · have hback := hrespells.alike (front ++ mark) back
      rw [List.append_assoc, List.append_assoc] at hback
      rw [List.append_assoc, List.append_assoc]
      exact .trans _ _ _ (hmark.alike front (others ++ back)) hback
termination_by rest.length

/-! ## Whole names -/

theorem IsBase.isLayout (h : IsBase base) : ∀ c ∈ base, Name.isLayout c = false := by
  cases h with
  | word h =>
    intro c hc
    have hbrace := h.not_mem_braces c hc
    simp only [List.mem_cons, List.not_mem_nil, or_false, not_or] at hbrace
    have hblank : isBlank c = false := by
      rw [Bool.eq_false_iff]
      intro hblank
      refine h.not_mem ?_ ?_ hc
      · exact isWordStart_of_isBlank hblank
      · simp [continuesName, isWordContinue_of_isBlank hblank]
    simp [Name.isLayout, hbrace, hblank]
  | greek h =>
    have hletters : ∀ l ∈ greekLetters, ∀ c ∈ '\\' :: l.toList, Name.isLayout c = false := by
      decide
    exact hletters _ h

/-- No Greek letter begins like a prime. -/
theorem IsBase.not_prime (h : IsBase base) {marks : List Char} (hmarks : ∀ c ∈ marks, c ≠ '\\') :
    ¬"\\prime".toList <:+: base ++ marks := by
  have hmem : '\\' ∈ "\\prime".toList := by decide
  intro hinside
  cases h with
  | word h =>
    rcases List.mem_append.1 (hinside.subset hmem) with hbase | hmark
    · exact h.not_mem_braces _ hbase (by decide)
    · exact hmarks _ hmark rfl
  | @greek letter h =>
    have hletters : ∀ l ∈ greekLetters, 2 ≤ l.toList.length ∧ l.toList.take 2 ≠ ['p', 'r'] ∧
        '\\' ∉ l.toList := by decide
    obtain ⟨hlength, hpr, hslash⟩ := hletters letter h
    rw [List.cons_append] at hinside
    rcases List.infix_cons_iff.1 hinside with hbegins | hinside
    · have hcommand : ['\\', 'p', 'r'] <+: "\\prime".toList := by decide
      have htake := List.prefix_iff_eq_take.1 (List.cons_prefix_cons.1 (hcommand.trans hbegins)).2
      rw [List.length_cons, List.length_singleton, List.take_append_of_le_length hlength] at htake
      exact hpr htake.symm
    · rcases List.mem_append.1 (hinside.subset hmem) with hbase | hmark
      · exact hslash hbase
      · exact hmarks _ hmark rfl

/-- The canonical spelling of an identifier with plain subscripts is an identifier. -/
theorem isName_ofSpelling {v : String} (h : EquationIdent v.toList)
    (hplain : plainSubscripts (v.toList ++ after)) : IsName (Name.ofSpelling v).text := by
  obtain ⟨base, rest, more, hbase, hmore, hv⟩ := h.split
  rw [hv, List.append_assoc] at hplain
  obtain ⟨marks, hmarked, hmarks⟩ := exists_marked hmore (plainSubscripts_of_append hplain)
  have hspell : Name.spell v.toList = base ++ marks := by
    have halike := Name.spell_eq_of_alike (hmarks.alike base [])
    rw [List.append_nil, List.append_nil] at halike
    rw [hv, halike]
    exact Name.spell_eq_self (List.forall_mem_append.2
      ⟨hbase.isLayout, fun c hc => (hmarks.plain c hc).1⟩)
      (hbase.not_prime fun c hc => (hmarks.plain c hc).2)
  rw [Name.ofSpelling, hspell]
  exact hbase.isName hmarked

/-! ## All tokens -/

section

variable {rules : ScanRules} {depth : Nat} {name : String} {ks : List Token.Kind}

theorem Scans.exists_next {kind : Token.Kind} (h : Scans rules depth cs ks)
    (hkind : kind ∈ ks) : ∃ depth c more text depth', c :: more <:+ cs ∧
      nextPiece rules depth c more = (.token text kind, depth') := by
  induction h with
  | done => cases hkind
  | @token depth depth' c cs text kind' ks next others ih =>
    rcases List.mem_cons.1 hkind with rfl | hkind
    · exact ⟨_, c, cs, text, _, List.suffix_refl _, next⟩
    · obtain ⟨depth, d, more, text', depth', hsuffix, next'⟩ := ih hkind
      exact ⟨depth, d, more, text', depth',
        hsuffix.trans ((List.drop_suffix _ _).trans (List.suffix_cons c cs)), next'⟩
  | @layout depth depth' c cs text ks next others ih =>
    obtain ⟨depth, d, more, text', depth', hsuffix, next'⟩ := ih hkind
    exact ⟨depth, d, more, text', depth',
      hsuffix.trans ((List.drop_suffix _ _).trans (List.suffix_cons c cs)), next'⟩

/-- An identifier of a text stands in it as it is spelled. -/
theorem Scans.exists_ident (hmode : rules.mode = .equation)
    (h : Scans rules depth cs ks) (hkind : .ident name ∈ ks) :
    EquationIdent name.toList ∧ ∃ before after, cs = before ++ (name.toList ++ after) := by
  obtain ⟨depth, c, more, text, depth', ⟨before, hsuffix⟩, next⟩ := h.exists_next hkind
  obtain ⟨rfl, hident⟩ := equationIdent_of_nextPiece hmode next
  have hfront := (nextPiece_begins rules depth c more).front
  rw [next] at hfront
  obtain ⟨after, hafter⟩ := hfront
  exact ⟨hident, before, after, by rw [← hsuffix, ← hafter]; rfl⟩

theorem Scans.isName_of_plain (hmode : rules.mode = .equation)
    (h : Scans rules depth cs ks) (hplain : plainSubscripts cs) (hkind : .ident name ∈ ks) :
    IsName (Name.ofSpelling name).text := by
  obtain ⟨hident, before, after, rfl⟩ := h.exists_ident hmode hkind
  exact isName_ofSpelling hident (plainSubscripts_of_append hplain)

end

end Scan

end Worksheet
