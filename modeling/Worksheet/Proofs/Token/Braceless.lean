import Worksheet.Proofs.Token.Canonical
/-!
# Texts without braces

Where no brace stands, identifiers are canonical as they are written, and a function is written as a
command of its own.
-/

namespace Worksheet

open Text

namespace Scan

variable {cs rest more : List Char}

/-! ## Identifiers -/

theorem Marked.isLayout (h : Marked more) : ∀ c ∈ more, Name.isLayout c = false := by
  induction h with
  | nil => exact nofun
  | run hne hrun _ ih =>
    refine List.forall_mem_cons.2 ⟨by decide, List.forall_mem_append.2 ⟨fun c hc => ?_, ih⟩⟩
    exact isLayout_of_isLetterOrNumber (hrun c hc)
  | command hne halpha _ ih =>
    refine List.forall_mem_cons.2 ⟨by decide, List.forall_mem_cons.2 ⟨by decide,
      List.forall_mem_append.2 ⟨fun c hc => ?_, ih⟩⟩⟩
    have hbrace := not_mem_braces_of_isAlpha (halpha c hc)
    simp only [List.mem_cons, List.not_mem_nil, or_false, not_or] at hbrace
    simp [Name.isLayout, hbrace, isBlank_of_isAlpha (halpha c hc)]
  | prime _ ih => exact List.forall_mem_cons.2 ⟨by decide, ih⟩

theorem marked_of_decorationsFrom {rest more : List Char} (h : decorationsFrom 0 rest = .ok more)
    (hbrace : '\x7b' ∉ more) (hprime : ¬"\\prime".toList <:+: more) : Marked more := by
  rcases decorationsFrom_eq_ok h with rfl | ⟨first, rest', others, hfirst, hne, hcs, hothers, rfl⟩
  · exact .nil
  · have hpos := List.length_pos_iff.2 hne
    have hlt : rest'.length < rest.length := by
      rw [hcs, List.length_append]
      omega
    have hmarked : Marked others := marked_of_decorationsFrom hothers
      (fun hmem => hbrace (List.mem_append_right _ hmem))
      (fun hinside => hprime (hinside.trans (List.suffix_append _ _).isInfix))
    unfold decoration at hfirst
    split at hfirst
    · split at hfirst
      · cases hfirst
        exact absurd (by simp) hbrace
      · cases hfirst
    · split at hfirst
      · cases hfirst
      · rename_i hname
        cases hfirst
        exact .command hname (List.all_eq_true.1 List.all_takeWhile) hmarked
    · split at hfirst
      · cases hfirst
      · rename_i hrun
        cases hfirst
        exact .run hrun (List.all_eq_true.1 List.all_takeWhile) hmarked
    · cases hfirst
      exact .prime hmarked
    · dsimp only at hfirst
      split at hfirst
      · cases hfirst
        exact absurd (List.mem_append_left _ (by decide)) hbrace
      split at hfirst
      · cases hfirst
        refine absurd ?_ hprime
        exact ((by decide : "\\prime".toList <:+ "^\\prime".toList).isInfix.trans
          (List.prefix_append _ _).isInfix)
      · cases hfirst
        exact absurd rfl hne
termination_by rest.length

/-- An identifier without braces and without the command for a prime is its own canonical
spelling. -/
theorem isName_of_braceless {v : String} (h : EquationIdent v.toList) (hbrace : '\x7b' ∉ v.toList)
    (hprime : ¬"\\prime".toList <:+: v.toList) : IsName (Name.ofSpelling v).text := by
  obtain ⟨base, rest, more, hbase, hmore, hv⟩ := h.split
  rw [hv] at hbrace hprime
  have hmarked := marked_of_decorationsFrom hmore
    (fun hmem => hbrace (List.mem_append_right _ hmem))
    (fun hinside => hprime (hinside.trans (List.suffix_append _ _).isInfix))
  have hspell : Name.spell v.toList = base ++ more := by
    rw [hv]
    exact Name.spell_eq_self (List.forall_mem_append.2 ⟨hbase.isLayout, hmarked.isLayout⟩) hprime
  rw [Name.ofSpelling, hspell]
  exact hbase.isName hmarked

/-! ## Functions -/

section

variable {rules : ScanRules} {depth depth' : Nat} {c : Char} {text : List Char} {name : String}
  {ks : List Token.Kind}

/-- There is no group in a text without braces. -/
theorem argument_of_braceless (hbrace : '\x7b' ∉ rest) (code : ErrorCode) (command : List Char) :
    ∃ front, argument code command rest = .error (.wrong (command ++ front) code) := by
  cases h : argument code command rest with
  | error piece =>
    obtain ⟨front, -, rfl⟩ := argument_eq_error h
    exact ⟨front, rfl⟩
  | ok group =>
    unfold argument at h
    dsimp only at h
    split at h
    · rename_i hopen
      exact absurd ((List.dropWhile_sublist _).subset (hopen ▸ List.mem_cons_self)) hbrace
    · cases h

/-- A function that is read has a command of its own. -/
def ReadsCommand (result : Piece × Nat) : Prop :=
  ∀ name, result.1.meaning = .token (.function name) → name ∈ functionCommands

theorem readsCommand_argument (hbrace : '\x7b' ∉ rest) {code : ErrorCode} {command : List Char}
    {found : List Char → List Char → Piece × Nat} :
    ReadsCommand (match argument code command rest with
      | .error piece => (piece, depth)
      | .ok (text, body) => found text body) := by
  obtain ⟨front, hgroup⟩ := argument_of_braceless hbrace code command
  rw [hgroup]
  exact nofun

theorem readsCommand_commandPiece {letters : List Char} (hbrace : '\x7b' ∉ rest) :
    ReadsCommand (commandPiece depth letters rest) := by
  unfold commandPiece
  refine iteInduction (fun _ => readsCommand_argument hbrace) fun _ => ?_
  refine iteInduction (fun _ => ?_) fun _ => ?_
  · split <;> exact nofun
  refine iteInduction (fun hfunction => ?_) fun _ => ?_
  · rintro _ ⟨⟩
    exact List.contains_iff_mem.1 hfunction
  refine iteInduction (fun _ => ?_) fun _ => ?_
  · split <;> exact nofun
  iterate 4 refine iteInduction (fun _ => nofun) fun _ => ?_
  refine iteInduction (fun _ => readsCommand_argument hbrace) fun _ => ?_
  iterate 2 refine iteInduction (fun _ => readsCommand_argument hbrace) fun _ => ?_
  exact nofun

/-- Without groups a function is written as a command of its own. -/
theorem function_of_nextPiece (hmode : rules.mode = .equation) (hbrace : '\x7b' ∉ cs)
    (h : nextPiece rules depth c cs = (.token text (.function name), depth')) :
    name ∈ functionCommands := by
  rw [nextPiece.eq_def, hmode] at h
  split at h
  · cases cs with
    | nil => cases h
    | cons d ds =>
      dsimp only at h
      split at h
      · refine readsCommand_commandPiece (fun hmem => hbrace (List.mem_cons_of_mem d ?_)) name
          (congrArg (·.1.meaning) h)
        exact (List.dropWhile_sublist _).subset hmem
      · unfold signPiece at h
        dsimp only at h
        iterate 5
          split at h
          · cases h
        cases h
  split at h
  · rename_i kind hsign
    cases h
    unfold sign? at hsign
    split at hsign <;> cases hsign
  obtain ⟨h, -⟩ := Prod.mk.inj h
  dsimp only at h
  iterate 3
    split at h
    · cases h
  split at h
  · unfold numberPiece at h
    split at h
    · cases h
    · split at h <;> cases h
  split at h
  · unfold namePiece at h
    rw [hmode] at h
    dsimp only at h
    split at h
    · cases h
    · split at h <;> cases h
  · cases h

/-! ## All tokens -/

theorem Scans.isName_of_braceless (hmode : rules.mode = .equation)
    (h : Scans rules depth cs ks) (hbrace : '\x7b' ∉ cs) (hprime : ¬"\\prime".toList <:+: cs)
    (hkind : .ident name ∈ ks) : IsName (Name.ofSpelling name).text := by
  obtain ⟨hident, before, after, rfl⟩ := h.exists_ident hmode hkind
  have hinside : name.toList <:+: before ++ (name.toList ++ after) := ⟨before, after, by simp⟩
  exact Scan.isName_of_braceless hident (fun hmem => hbrace (hinside.subset hmem))
    (fun hbare => hprime (hbare.trans hinside))

theorem Scans.function_of_braceless (hmode : rules.mode = .equation)
    (h : Scans rules depth cs ks) (hbrace : '\x7b' ∉ cs) (hkind : .function name ∈ ks) :
    name ∈ functionCommands := by
  obtain ⟨depth, c, more, text, depth', hsuffix, next⟩ := h.exists_next hkind
  exact function_of_nextPiece hmode
    (fun hmem => hbrace (hsuffix.subset (List.mem_cons_of_mem c hmem))) next

end

end Scan

end Worksheet
