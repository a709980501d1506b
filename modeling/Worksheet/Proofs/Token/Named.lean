import Worksheet.Proofs.Token.Sizing
/-!
# Names in front of a text

A text that is a name is one token, whatever follows that does not go on with it: an identifier, or
a unit if it is a bare word that stands for one and is not called.
-/

namespace Worksheet

open Text

namespace Scan

variable {isUnitWord : String → Bool} {depth depth' : Nat} {c : Char} {cs name : List Char}

theorem namePiece_words (isUnitWord : String → Bool) (hstart : startsName .equation c) :
    namePiece ⟨.equation, isUnitWord⟩ c cs = namePiece { mode := .equation } c cs ∨
      ∃ base, IsBareWord base ∧ isUnitWord (String.ofList base) ∧
        namePiece { mode := .equation } c cs = .token base (.ident (String.ofList base)) ∧
        namePiece ⟨.equation, isUnitWord⟩ c cs = .token base (.unit (String.ofList base)) := by
  have hrun : ∀ d ∈ cs.takeWhile (continuesName .equation), continuesName .equation d :=
    List.all_eq_true.1 List.all_takeWhile
  unfold namePiece
  dsimp only
  split
  · exact .inl rfl
  · rename_i name hname
    rw [if_neg (show ¬(_ ∧ false = true ∧ _) by simp)]
    split
    · rename_i hunit
      obtain ⟨hbare, hunit, -⟩ := hunit
      rw [hbare]
      exact .inr ⟨c :: cs.takeWhile (continuesName .equation), ⟨hstart, hrun⟩, hunit, rfl, rfl⟩
    · exact .inl rfl

/-- Units change nothing but the bare words that stand for them. -/
theorem nextPiece_words (isUnitWord : String → Bool) (depth : Nat) (c : Char) (cs : List Char) :
    nextPiece ⟨.equation, isUnitWord⟩ depth c cs = nextPiece { mode := .equation } depth c cs ∨
      ∃ base, IsBareWord base ∧ isUnitWord (String.ofList base) ∧
        nextPiece { mode := .equation } depth c cs =
          (.token base (.ident (String.ofList base)), depth) ∧
        nextPiece ⟨.equation, isUnitWord⟩ depth c cs =
          (.token base (.unit (String.ofList base)), depth) := by
  rw [nextPiece.eq_def, nextPiece.eq_def { mode := .equation }]
  split
  · exact .inl rfl
  cases sign? c with
  | some kind => exact .inl rfl
  | none =>
    dsimp only
    split
    · exact .inl rfl
    split
    · exact .inl rfl
    split
    · exact .inl rfl
    split
    · exact .inl rfl
    split
    · rename_i hstart
      rcases namePiece_words isUnitWord hstart with h | ⟨base, hbare, hunit, h, h'⟩
      · exact .inl (by rw [h])
      · exact .inr ⟨base, hbare, hunit, by rw [h], by rw [h']⟩
    · exact .inl rfl

theorem nextPiece_of_wordless {spelling : String}
    (h : nextPiece { mode := .equation } depth c cs = (.token name (.ident spelling), depth'))
    (hword : ¬(IsBareWord name ∧ isUnitWord spelling)) :
    nextPiece ⟨.equation, isUnitWord⟩ depth c cs = (.token name (.ident spelling), depth') := by
  rcases nextPiece_words isUnitWord depth c cs with hsame | ⟨base, hbare, hunit, hbase, -⟩
  · rw [hsame, h]
  · cases h.symm.trans hbase
    exact absurd ⟨hbare, hunit⟩ hword

/-- What is read is a bracket, or opens and closes no matrix. -/
def Steady (depth : Nat) (next : Piece × Nat) : Prop :=
  next.2 = depth ∨ ∃ kind ∈ [Token.Kind.lbracket, .rbracket], next.1.meaning = .token kind

theorem steady_same (depth : Nat) (piece : Piece) : Steady depth (piece, depth) := .inl rfl

theorem steady_commandPiece (depth : Nat) (letters rest : List Char) :
    Steady depth (commandPiece depth letters rest) := by
  have hcase := commandPiece_cases depth letters rest
  generalize commandPiece depth letters rest = next at hcase
  cases hcase with
  | bracket htext hkind => exact .inr ⟨_, hkind, rfl⟩
  | _ => exact steady_same depth _

/-- Only the begin and the end of a matrix, which are brackets, change how many are open. -/
theorem steady_nextPiece (rules : ScanRules) (depth : Nat) (c : Char) (cs : List Char) :
    Steady depth (nextPiece rules depth c cs) := by
  unfold nextPiece
  refine iteInduction (fun _ => ?_) fun _ => ?_
  · cases cs with
    | nil => exact steady_same depth _
    | cons d ds =>
      exact iteInduction (fun _ => steady_commandPiece depth _ _) fun _ => steady_same depth _
  · cases sign? c <;> exact steady_same depth _

/-- A text that is an identifier and nothing else, where no word stands for a unit. -/
def IsName (v : String) : Prop :=
  tokens { mode := .equation } v = .ok [⟨.ident v, 0, byteSize v.toList⟩]

/-- The name is one piece, whatever follows that does not go on with it. -/
theorem IsName.piece {v : String} (h : IsName v) :
    ∃ c cs, v.toList = c :: cs ∧ ∀ (isUnitWord : String → Bool) {r : List Char}, Apart r →
      ¬(IsBareWord v.toList ∧ isUnitWord v) →
      nextPiece ⟨.equation, isUnitWord⟩ 0 c (cs ++ r) = (.token v.toList (.ident v), 0) := by
  have htokens : tokensFrom { mode := .equation } 0 0 v.toList =
      .ok [⟨.ident v, 0, byteSize v.toList⟩] := h
  cases hv : v.toList with
  | nil =>
    rw [hv] at htokens
    cases htokens
  | cons c cs =>
    rw [hv] at htokens
    obtain ⟨text, meaning, depth', others, next, hread, hothers, heq⟩ := tokensFrom_eq_ok.1 htokens
    have hfront := (nextPiece_begins { mode := .equation } 0 c cs).front
    have hne := nextPiece_ne_nil { mode := .equation } 0 c cs
    have hdepth := steady_nextPiece { mode := .equation } 0 c cs
    rw [next] at hfront hne hdepth
    dsimp only at hfront hne hdepth
    have hwhole : meaning = .token (.ident v) ∧ text = c :: cs := by
      have hpos : 0 < byteSize text := by
        obtain ⟨d, text, rfl⟩ := List.exists_cons_of_ne_nil hne
        have hd := d.utf8Size_pos
        rw [byteSize_cons]
        omega
      cases meaning with
      | misread fault => exact absurd rfl (hread fault)
      | layout =>
        obtain rfl : [_] = others := heq
        have hstart := le_start_of_tokensFrom hothers List.mem_cons_self
        dsimp only at hstart
        omega
      | token kind =>
        obtain ⟨htoken, -⟩ := List.cons.inj heq
        obtain ⟨hkind, -, hstop⟩ := Token.mk.inj htoken
        have hle : c :: cs <+: text :=
          isPrefix_of_byteSize_le List.prefix_rfl hfront (by omega)
        exact ⟨by rw [hkind], hfront.eq_of_length_le hle.length_le⟩
    obtain ⟨rfl, rfl⟩ := hwhole
    obtain rfl : depth' = 0 := by
      rcases hdepth with hdepth | ⟨kind, hkind, hident⟩
      · exact hdepth
      · cases hident
        simp at hkind
    refine ⟨c, cs, rfl, fun isUnitWord r hr hword => nextPiece_of_wordless ?_ hword⟩
    exact (nextPiece_append hr (fun _ hword => absurd hword (not_endsUnitWord _)) next nofun).1

section

variable {v : String} {r : List Char} {ks : List Token.Kind}

theorem IsName.next_ident (h : IsName v) (hr : Apart r)
    (hcalled : IsBareWord v.toList → isUnitWord v → isCalled r) :
    ∃ c cs, v.toList = c :: cs ∧ nextPiece ⟨.equation, isUnitWord⟩ 0 c (cs ++ r) =
      (.token (c :: cs) (.ident v), 0) := by
  obtain ⟨c, cs, hv, hpiece⟩ := h.piece
  refine ⟨c, cs, hv, ?_⟩
  rw [← hv]
  by_cases hword : IsBareWord v.toList ∧ isUnitWord v
  · obtain ⟨hbare, hunit⟩ := hword
    have hspelling : String.ofList (c :: cs) = v := by rw [← hv, String.ofList_toList]
    rw [hv] at hbare ⊢
    have hnext := @nextPiece_bareWord ⟨.equation, isUnitWord⟩ 0 c rfl cs [] r hbare
      (by rw [hspelling]; exact hunit) nofun hr
    rw [List.nil_append, hspelling, if_pos (hcalled (by rwa [hv]) hunit)] at hnext
    exact hnext
  · exact hpiece isUnitWord hr hword

theorem IsName.scans_ident (h : IsName v) (hr : Apart r)
    (hcalled : IsBareWord v.toList → isUnitWord v → isCalled r)
    (others : Scans ⟨.equation, isUnitWord⟩ 0 r ks) :
    Scans ⟨.equation, isUnitWord⟩ 0 (v.toList ++ r) (.ident v :: ks) := by
  obtain ⟨c, cs, hv, next⟩ := h.next_ident hr hcalled
  rw [hv]
  exact .token_append next others

theorem IsName.scans_unit (h : IsName v) (hbare : IsBareWord v.toList) (hunit : isUnitWord v)
    (hr : Apart r) (hcalled : isCalled r = false) (others : Scans ⟨.equation, isUnitWord⟩ 0 r ks) :
    Scans ⟨.equation, isUnitWord⟩ 0 (v.toList ++ r) (.unit v :: ks) := by
  obtain ⟨c, cs, hv, -⟩ := h.piece
  have hspelling : String.ofList (c :: cs) = v := by rw [← hv, String.ofList_toList]
  rw [hv] at hbare ⊢
  have hnext := @nextPiece_bareWord ⟨.equation, isUnitWord⟩ 0 c rfl cs [] r hbare
    (by rw [hspelling]; exact hunit) nofun hr
  rw [List.nil_append, hspelling, hcalled, if_neg (by decide)] at hnext
  exact .token_append hnext others

/-- A text in parentheses. -/
theorem Scans.parentheses {rules : ScanRules} {q : List Char} (h : Scans rules 0 q ks) :
    Scans rules 0 ('(' :: (q ++ [')'])) (.lparen :: (ks ++ [.rparen])) :=
  .sign rfl (h.append_apart (apart_cons (by decide) (by decide) []) rfl fun _ => .sign rfl .done)

theorem Scans.cdot {rules : ScanRules} (others : Scans rules 0 r ks) :
    Scans rules 0 (" \\cdot ".toList ++ r) (.mul :: ks) := by
  have next : nextPiece rules 0 '\\' ("cdot".toList ++ ' ' :: r) =
      (.token ('\\' :: "cdot".toList) .mul, 0) := by
    rw [nextPiece_command (by decide) (by decide) (stops_cons.2 (by decide))]
    rfl
  have hscans : Scans rules 0 (' ' :: '\\' :: ("cdot".toList ++ ' ' :: r)) (.mul :: ks) :=
    .space (.token_append next others.space)
  exact hscans

end

end Scan

end Worksheet
