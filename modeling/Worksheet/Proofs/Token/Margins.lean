import Worksheet.Proofs.Text.Blank
import Worksheet.Proofs.Token.Operator
/-!
# Layout around an identifier

A text that is one identifier may have layout before and behind it. That has a command or a tie in
it unless it is blank, and the canonical spelling keeps the number of these.
-/

namespace Worksheet

open Text

namespace Scan

/-- Stands in a command, is a prime or a tie. -/
def isAccent (c : Char) : Bool := c = '\\' || c = '\'' || c = '~'

/-- Blank, or with a command or a tie in it. -/
def Idle (cs : List Char) : Prop := (∀ c ∈ cs, isBlank c) ∨ 0 < cs.countP isAccent

section

variable {rules : ScanRules} {depth depth' start : Nat} {c : Char} {cs ds text : List Char}
  {meaning : Meaning}

theorem idle_nil : Idle [] := .inl nofun

theorem Idle.append (h : Idle cs) (h' : Idle ds) : Idle (cs ++ ds) := by
  rcases h with h | h
  · rcases h' with h' | h'
    · exact .inl fun c hc => (List.mem_append.1 hc).elim (h c) (h' c)
    · exact .inr (by rw [List.countP_append]; omega)
  · exact .inr (by rw [List.countP_append]; omega)

theorem idle_cons_of_isAccent (h : isAccent c) : Idle (c :: cs) :=
  .inr (List.countP_pos_iff.2 ⟨c, List.mem_cons_self, h⟩)

/-- A piece, and what is behind it. -/
theorem piece_append (next : nextPiece rules depth c cs = (⟨text, meaning⟩, depth')) :
    ∃ others, text = c :: others ∧ c :: cs = text ++ cs.drop (text.length - 1) := by
  have hfront := (nextPiece_begins rules depth c cs).front
  have hne := nextPiece_ne_nil rules depth c cs
  rw [next] at hfront hne
  obtain ⟨d, others, rfl⟩ := List.exists_cons_of_ne_nil hne
  obtain ⟨rfl, rest, rfl⟩ := List.cons_prefix_cons.1 hfront
  refine ⟨others, rfl, ?_⟩
  rw [List.length_cons, Nat.add_sub_cancel, List.drop_left, List.cons_append]

theorem idle_of_layout (next : nextPiece rules depth c cs = (.layout text, depth')) :
    Idle text := by
  obtain ⟨others, rfl, -⟩ := piece_append next
  by_cases haccent : isAccent c
  · exact idle_cons_of_isAccent haccent
  simp only [isAccent, Bool.or_eq_true, decide_eq_true_eq, not_or] at haccent
  rw [nextPiece.eq_def, if_neg haccent.1.1] at next
  split at next
  · cases next
  obtain ⟨next, -⟩ := Prod.mk.inj next
  split at next
  · cases next
  split at next
  · split at next <;> cases next
  split at next
  · rename_i hblank
    cases next
    have hc : isBlank c := by simpa [haccent.2] using hblank
    exact .inl (List.forall_mem_singleton.2 hc)
  split at next
  · unfold numberPiece at next
    split at next
    · cases next
    · split at next <;> cases congrArg Piece.meaning next
  split at next
  · unfold namePiece at next
    dsimp only at next
    split at next
    · cases next
    · split at next
      · cases next
      · split at next <;> cases congrArg Piece.meaning next
  · cases next

/-- A text without tokens. -/
theorem idle_of_tokensFrom {cs : List Char} {start depth : Nat}
    (h : tokensFrom rules start depth cs = .ok []) : Idle cs := by
  cases cs with
  | nil => exact idle_nil
  | cons c cs =>
    obtain ⟨text, meaning, depth', others, next, hread, hothers, hnil⟩ := tokensFrom_eq_ok.1 h
    obtain ⟨hown, rfl⟩ := List.append_eq_nil_iff.1 hnil.symm
    obtain ⟨_, -, happend⟩ := piece_append next
    cases meaning with
    | token kind => cases hown
    | misread fault => exact absurd rfl (hread fault)
    | layout =>
      rw [happend]
      exact (idle_of_layout next).append (idle_of_tokensFrom hothers)
termination_by cs.length

/-- A text with one token in it, which is an identifier. -/
theorem exists_margins {v : String} {a b : Nat} (hmode : rules.mode = .equation) {cs : List Char}
    {start depth : Nat} (h : tokensFrom rules start depth cs = .ok [⟨.ident v, a, b⟩]) :
    ∃ before after, cs = before ++ v.toList ++ after ∧ Idle before ∧ Idle after ∧
      a = start + byteSize before ∧ b = a + byteSize v.toList := by
  cases cs with
  | nil => cases h
  | cons c cs =>
    obtain ⟨text, meaning, depth', others, next, hread, hothers, heq⟩ := tokensFrom_eq_ok.1 h
    obtain ⟨_, -, happend⟩ := piece_append next
    cases meaning with
    | misread fault => exact absurd rfl (hread fault)
    | token kind =>
      obtain ⟨htoken, rfl⟩ := List.cons.inj heq
      cases htoken
      obtain ⟨rfl, -⟩ := equationIdent_of_nextPiece hmode next
      exact ⟨[], _, happend, idle_nil, idle_of_tokensFrom hothers, rfl, rfl⟩
    | layout =>
      obtain rfl : [_] = others := heq
      obtain ⟨before, after, hsplit, hbefore, hafter, rfl, rfl⟩ := exists_margins hmode hothers
      refine ⟨text ++ before, after, ?_, (idle_of_layout next).append hbefore, hafter, ?_, rfl⟩
      · rw [happend, hsplit]
        simp
      · rw [byteSize_append, Nat.add_assoc]
termination_by cs.length

end

end Scan

/-- The canonical spelling has as many of them. -/
theorem Name.countP_spell (cs : List Char) :
    (Name.spell cs).countP Scan.isAccent = cs.countP Scan.isAccent := by
  have hkept : ∀ c, (Scan.isAccent c && !Name.isLayout c) = Scan.isAccent c := by
    intro c
    have hall : ∀ c ∈ ['\\', '\'', '~'], Name.isLayout c = false := by decide
    cases haccent : Scan.isAccent c with
    | false => rfl
    | true =>
      rw [hall c (by simpa [Scan.isAccent, or_assoc] using haccent)]
      rfl
  rw [spell, countP_replace (by decide) (by decide), countP_replace (by decide) (by decide),
    List.countP_filter]
  simp only [hkept]

namespace Scan

variable {text v : String} {a b : Nat}

/-- A text that is cut into one identifier with the same canonical spelling is that name. -/
theorem isName_of_ofSpelling (h : tokens { mode := .equation } text = .ok [⟨.ident v, a, b⟩])
    {cs : List Char} (htrim : trim cs = text.toList)
    (hname : Name.ofSpelling text = Name.ofSpelling v) : IsName text := by
  obtain ⟨before, after, hsplit, hbefore, hafter, rfl, rfl⟩ := exists_margins rfl h
  have hcount : text.toList.countP isAccent = v.toList.countP isAccent := by
    rw [← Name.countP_spell, ← Name.countP_spell v.toList]
    exact congrArg (List.countP isAccent) (String.ofList_inj.1 (Name.mk.inj hname))
  rw [hsplit, List.countP_append, List.countP_append] at hcount
  obtain ⟨rfl, rfl⟩ := trim_eq_append (htrim.trans hsplit)
    (hbefore.resolve_right (by omega)) (hafter.resolve_right (by omega))
  rw [List.nil_append, List.append_nil] at hsplit
  obtain rfl := String.toList_inj.1 hsplit
  rw [byteSize_nil, Nat.zero_add, Nat.zero_add] at h
  exact h

/-- What is apart behind the text leaves its identifier the first token, or makes it a unit. -/
theorem first_token {isUnitWord : String → Bool} {r : List Char} (hr : Apart r) {cs : List Char}
    {start start' depth : Nat} {ts : List Token}
    (h : tokensFrom { mode := .equation } start depth cs = .ok [⟨.ident v, a, b⟩])
    (hts : tokensFrom ⟨.equation, isUnitWord⟩ start' depth (cs ++ r) = .ok ts) :
    ∃ t more, ts = t :: more ∧ (t.kind = .ident v ∨ t.kind = .unit v) := by
  cases cs with
  | nil => cases h
  | cons c cs =>
    obtain ⟨text, meaning, depth', others, next, hread, hothers, heq⟩ := tokensFrom_eq_ok.1 h
    obtain ⟨next', hdrop⟩ :=
      nextPiece_append hr (fun _ hword => absurd hword (not_endsUnitWord _)) next hread
    rw [List.cons_append] at hts
    obtain ⟨text', meaning', depth'', others', next'', -, hothers', rfl⟩ := tokensFrom_eq_ok.1 hts
    have hwords := nextPiece_words isUnitWord depth c (cs ++ r)
    rw [next', next''] at hwords
    cases meaning with
    | misread fault => exact absurd rfl (hread fault)
    | token kind =>
      obtain ⟨htoken, -⟩ := List.cons.inj heq
      obtain ⟨rfl, -, -⟩ := Token.mk.inj htoken
      rcases hwords with hsame | ⟨base, -, -, hident, hunit⟩
      · cases hsame
        exact ⟨_, _, rfl, .inl rfl⟩
      · cases hident
        cases hunit
        exact ⟨_, _, rfl, .inr rfl⟩
    | layout =>
      obtain rfl : [_] = others := heq
      rcases hwords with hsame | ⟨base, -, -, hident, -⟩
      · cases hsame
        rw [hdrop] at hothers'
        exact first_token hr hothers hothers'
      · cases congrArg (fun next => next.1.meaning) hident
termination_by cs.length

end Scan

end Worksheet
