import Worksheet.Proofs.Token.Commands
import Worksheet.Proofs.Token.Named
/-!
# Names as commands

Every name can stand in the group of a command, as it is spelled: it opens and closes no group that
the command could take for its own.
-/

namespace Worksheet

open Text

namespace Text

variable {cs ds body rest : List Char}

/-- A text that a group goes past: it closes the groups that it opens, and no other. -/
def Balanced (cs : List Char) : Prop :=
  ∀ depth rest, untilClosed depth (cs ++ rest) =
    (untilClosed depth rest).map fun (body, after) => (cs ++ body, after)

theorem balanced_nil : Balanced [] := by
  intro depth rest
  simp

theorem Balanced.append (h : Balanced cs) (h' : Balanced ds) : Balanced (cs ++ ds) := by
  intro depth rest
  rw [List.append_assoc, h, h', Option.map_map]
  congr 1
  funext ⟨body, after⟩
  simp

theorem Balanced.untilClosed (h : Balanced cs) (rest : List Char) :
    untilClosed 0 (cs ++ '\x7d' :: rest) = some (cs, rest) := by
  rw [h]
  simp [Text.untilClosed]

theorem balanced_of_chars (h : ∀ c ∈ cs, c ∉ ['\\', '\x7b', '\x7d']) : Balanced cs :=
  fun depth rest => untilClosed_append h depth rest

theorem balanced_char {c : Char} (h : c ∉ ['\\', '\x7b', '\x7d']) : Balanced [c] :=
  balanced_of_chars (List.forall_mem_singleton.2 h)

theorem balanced_command {c : Char} (h : Balanced cs) : Balanced ('\\' :: c :: cs) := by
  intro depth rest
  rw [List.cons_append, List.cons_append, Text.untilClosed, h, Option.map_map]
  rfl

/-- A group that closes is gone past at any depth. -/
theorem untilClosed_deeper {inner depth : Nat} {cs body rest : List Char}
    (h : untilClosed inner cs = some (body, rest)) (rest' : List Char) :
    untilClosed (depth + 1 + inner) (body ++ '\x7d' :: rest') =
      (untilClosed depth rest').map fun (body', after) => (body ++ '\x7d' :: body', after) := by
  fun_induction untilClosed inner cs generalizing body with
  | case1 | case2 => cases h
  | case5 =>
    cases h
    rfl
  | case3 inner c cs ih =>
    obtain ⟨⟨body', rest''⟩, hbody, heq⟩ := Option.map_eq_some_iff.1 h
    cases heq
    change Text.untilClosed _ ('\\' :: c :: (body' ++ '\x7d' :: rest')) = _
    rw [Text.untilClosed, ih hbody, Option.map_map]
    rfl
  | case4 inner cs ih =>
    obtain ⟨⟨body', rest''⟩, hbody, heq⟩ := Option.map_eq_some_iff.1 h
    cases heq
    change Text.untilClosed _ ('\x7b' :: (body' ++ '\x7d' :: rest')) = _
    rw [Text.untilClosed, Nat.add_assoc, ih hbody, Option.map_map]
    rfl
  | case6 inner cs ih =>
    obtain ⟨⟨body', rest''⟩, hbody, heq⟩ := Option.map_eq_some_iff.1 h
    cases heq
    change Text.untilClosed (depth + 1 + inner + 1) ('\x7d' :: (body' ++ '\x7d' :: rest')) = _
    rw [Text.untilClosed, ih hbody, Option.map_map]
    rfl
  | case7 inner c cs hslash hopen hclose hclose' ih =>
    obtain ⟨⟨body', rest''⟩, hbody, heq⟩ := Option.map_eq_some_iff.1 h
    cases heq
    have hne : c ≠ '\x7d' := by
      cases inner with
      | zero => exact hclose rfl
      | succ inner => exact hclose' inner rfl
    change Text.untilClosed _ (c :: (body' ++ '\x7d' :: rest')) = _
    rw [untilClosed_other hslash hopen hne, ih hbody, Option.map_map]
    rfl

theorem balanced_group (h : untilClosed 0 cs = some (body, rest)) :
    Balanced ('\x7b' :: body ++ ['\x7d']) := by
  intro depth rest'
  have happend : '\x7b' :: body ++ ['\x7d'] ++ rest' = '\x7b' :: (body ++ '\x7d' :: rest') := by simp
  rw [happend, Text.untilClosed, untilClosed_deeper h, Option.map_map]
  congr 1
  funext found
  simp

end Text

namespace Scan

variable {cs first more base : List Char}

/-! ## Names are balanced -/

theorem not_mem_braces_of_isLetterOrNumber {c : Char} (h : isLetterOrNumber c) :
    c ∉ ['\\', '\x7b', '\x7d'] := by
  have hnone : ∀ c ∈ ['\\', '\x7b', '\x7d'], isLetterOrNumber c = false := by decide
  intro hmem
  rw [hnone c hmem] at h
  cases h

theorem not_mem_braces_of_isAlpha {c : Char} (h : c.isAlpha) : c ∉ ['\\', '\x7b', '\x7d'] := by
  have hnone : ∀ c ∈ ['\\', '\x7b', '\x7d'], c.isAlpha = false := by decide
  intro hmem
  rw [hnone c hmem] at h
  cases h

theorem balanced_letters {letters : List Char} (hne : letters ≠ [])
    (h : ∀ c ∈ letters, c.isAlpha) : Balanced ('\\' :: letters) := by
  obtain ⟨d, ds, rfl⟩ := List.exists_cons_of_ne_nil hne
  exact balanced_command (balanced_of_chars fun c hc =>
    not_mem_braces_of_isAlpha (h c (List.mem_cons_of_mem d hc)))

theorem balanced_decoration (h : decoration cs = .ok first) : Balanced first := by
  unfold decoration at h
  split at h
  · split at h
    · rename_i body rest hbody
      cases h
      exact (balanced_char (by decide)).append (balanced_group hbody)
    · cases h
  · split at h
    · cases h
    · rename_i cs hne
      cases h
      exact (balanced_char (by decide)).append
        (balanced_letters hne (List.all_eq_true.1 List.all_takeWhile))
  · split at h
    · cases h
    · rename_i cs _ _ _ _
      cases h
      refine balanced_of_chars (List.forall_mem_cons.2 ⟨by decide, fun c hc => ?_⟩)
      exact not_mem_braces_of_isLetterOrNumber (List.all_eq_true.1 List.all_takeWhile c hc)
  · cases h
    exact balanced_of_chars (by decide)
  · dsimp only at h
    split at h
    · cases h
      have hbraced : untilClosed 0 "\\prime\x7d".toList = some ("\\prime".toList, []) := by decide
      exact (balanced_char (by decide)).append (balanced_group hbraced)
    split at h
    · cases h
      have hbare : Balanced ('\\' :: "prime".toList) := balanced_letters (by decide) (by decide)
      exact (balanced_char (by decide)).append hbare
    · cases h
      exact balanced_nil

/-- A text goes on with nothing, or with a subscript or a prime and with what that goes on with. -/
theorem decorationsFrom_eq_ok (h : decorationsFrom 0 cs = .ok more) :
    more = [] ∨ ∃ first rest others, decoration cs = .ok first ∧ first ≠ [] ∧ cs = first ++ rest ∧
      decorationsFrom 0 rest = .ok others ∧ more = first ++ others := by
  cases cs with
  | nil =>
    cases h
    exact .inl rfl
  | cons c cs =>
    rw [decorationsFrom] at h
    split at h
    · cases h
    · cases h
      exact .inl rfl
    · rename_i d first hfirst
      obtain ⟨rfl, rest, rfl⟩ := List.cons_prefix_cons.1 (decoration_isPrefix hfirst)
      obtain ⟨ds, hds, rfl⟩ := following_eq_ok h
      obtain ⟨others, hothers, rfl⟩ := decorationsFrom_append hds
      exact .inr ⟨_, rest, others, hfirst, List.cons_ne_nil _ _, rfl, hothers, rfl⟩

theorem balanced_decorations {cs more : List Char} (h : decorationsFrom 0 cs = .ok more) :
    Balanced more := by
  rcases decorationsFrom_eq_ok h with rfl | ⟨first, rest, others, hfirst, hne, hcs, hothers, rfl⟩
  · exact balanced_nil
  · have hpos := List.length_pos_iff.2 hne
    have hlt : rest.length < cs.length := by
      rw [hcs, List.length_append]
      omega
    exact (balanced_decoration hfirst).append (balanced_decorations hothers)
termination_by cs.length

theorem IsBareWord.not_mem {c : Char} (h : IsBareWord cs) (hstart : startsName .equation c = false)
    (hcontinue : continuesName .equation c = false) : c ∉ cs := by
  cases cs with
  | nil => exact absurd h id
  | cons d ds =>
    intro hmem
    rcases List.mem_cons.1 hmem with rfl | hmem
    · exact absurd h.1 (by rw [hstart]; decide)
    · exact absurd (h.2 c hmem) (by rw [hcontinue]; decide)

theorem IsBareWord.not_mem_braces (h : IsBareWord cs) : ∀ c ∈ cs, c ∉ ['\\', '\x7b', '\x7d'] := by
  have hnone : ∀ c ∈ ['\\', '\x7b', '\x7d'],
      startsName .equation c = false ∧ continuesName .equation c = false := by decide
  exact fun c hc hmem => h.not_mem (hnone c hmem).1 (hnone c hmem).2 hc

/-- A bare word or a Greek letter, with its subscripts and primes. -/
inductive EquationIdent : List Char → Prop where
  | word {base rest more : List Char} (h : IsBareWord base)
      (hmore : decorationsFrom 0 rest = .ok more) : EquationIdent (base ++ more)
  | greek {letter : String} {rest more : List Char} (h : letter ∈ greekLetters)
      (hmore : decorationsFrom 0 rest = .ok more) : EquationIdent ('\\' :: letter.toList ++ more)

section

variable {rules : ScanRules} {depth depth' : Nat} {c : Char} {text : List Char} {v : String}

theorem equationIdent_of_commandPiece {letters : List Char}
    (h : commandPiece depth letters cs = (.token text (.ident v), depth')) :
    text = v.toList ∧ EquationIdent text := by
  have hcase := commandPiece_cases depth letters cs
  rw [h] at hcase
  generalize hnext : (Piece.token text (.ident v), depth') = next at hcase
  cases hcase with
  | token htext hkind =>
    cases hnext
    cases hkind
  | bracket htext hkind =>
    cases hnext
    simp at hkind
  | letter hgreek hname =>
    cases hnext
    obtain ⟨more, hmore, rfl⟩ := decorate_eq_ok hname
    have hletter := EquationIdent.greek (List.contains_iff_mem.1 hgreek) hmore
    rw [String.toList_ofList] at hletter ⊢
    exact ⟨rfl, hletter⟩
  | _ => cases hnext

theorem signPiece_ne_ident (depth : Nat) (c : Char) :
    (signPiece .equation depth c).meaning ≠ .token (.ident v) := by
  unfold signPiece
  dsimp only
  intro h
  iterate 5
    split at h
    · cases h
  cases h

/-- An identifier is spelled as it stands in the text. -/
theorem equationIdent_of_nextPiece (hmode : rules.mode = .equation)
    (h : nextPiece rules depth c cs = (.token text (.ident v), depth')) :
    text = v.toList ∧ EquationIdent text := by
  rw [nextPiece.eq_def, hmode] at h
  split at h
  · cases cs with
    | nil => cases h
    | cons d ds =>
      dsimp only at h
      split at h
      · exact equationIdent_of_commandPiece h
      · have hmeaning := congrArg (fun next => next.1.meaning) h
        exact absurd hmeaning (signPiece_ne_ident depth d)
  split at h
  · rename_i kind hsign
    cases h
    exact absurd hsign sign?_ne_ident
  obtain ⟨h, -⟩ := Prod.mk.inj h
  dsimp only at h
  split at h
  · cases h
  split at h
  · cases h
  split at h
  · cases h
  split at h
  · unfold numberPiece at h
    split at h
    · cases h
    · split at h <;> cases h
  split at h
  · rename_i hstart
    unfold namePiece at h
    rw [hmode] at h
    dsimp only at h
    split at h
    · cases h
    · rename_i name hname
      split at h
      · cases h
      · cases h
        obtain ⟨more, hmore, rfl⟩ := decorate_eq_ok hname
        rw [String.toList_ofList]
        exact ⟨rfl, .word ⟨hstart, List.all_eq_true.1 List.all_takeWhile⟩ hmore⟩
  · cases h

theorem EquationIdent.balanced (h : EquationIdent cs) : Balanced cs := by
  cases h with
  | @word base rest more h hmore =>
    exact (balanced_of_chars h.not_mem_braces).append (balanced_decorations hmore)
  | greek h hmore =>
    obtain ⟨hne, halpha⟩ := isAlpha_greek h
    exact (balanced_letters hne halpha).append (balanced_decorations hmore)

theorem IsName.equationIdent (h : IsName v) : EquationIdent v.toList := by
  obtain ⟨c, cs, hv, hpiece⟩ := h.piece
  have next := hpiece (fun _ => false) apart_nil (by simp)
  exact (equationIdent_of_nextPiece rfl next).2

/-- A name in the group of the command is the function that the command calls. -/
theorem nextPiece_operator (h : Balanced v.toList) (rest : List Char) :
    nextPiece rules depth '\\' ("operatorname".toList ++ '\x7b' :: (v.toList ++ '\x7d' :: rest)) =
      (.token ('\\' :: "operatorname".toList ++ '\x7b' :: v.toList ++ ['\x7d'])
        (.function (String.ofList (trim v.toList))), depth) := by
  rw [nextPiece_command (by decide) (by decide) (stops_alpha_of_mem (by decide) _)]
  unfold commandPiece
  dsimp only
  iterate 8 rw [if_neg (by decide)]
  rw [if_pos (by decide), argument_braces _ _ (h.untilClosed rest)]

end

end Scan

end Worksheet
