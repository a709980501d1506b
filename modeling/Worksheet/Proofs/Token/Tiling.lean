import Worksheet.Proofs.Token.Margins
/-!
# Tokens in their text

The pieces of a text follow each other without a gap, and none is empty. So the scanner gets through
every text, its faults included, and a token covers some characters of the text that no other token
covers.
-/

namespace Worksheet

open Text

/-- How a token says what it covers. A number, and a name in an equation, is all of it. The percent
sign of the units does without the backslash before it. -/
def Token.Kind.SpelledBy (mode : Mode) (covered : List Char) : Token.Kind → Prop
  | .num literal => literal.toList = covered
  | .ident name => name.toList <:+: covered ∧ (mode = .equation → name.toList = covered)
  | _ => True

/-- These characters of a text stand between the two bytes of the token. -/
def Token.Covers (t : Token) (text covered : List Char) : Prop :=
  ∃ before behind, text = before ++ covered ++ behind ∧ t.start = byteSize before ∧
    t.stop = t.start + byteSize covered

theorem Token.Covers.stop_le {t : Token} {text covered : List Char} (h : t.Covers text covered) :
    t.stop ≤ byteSize text := by
  obtain ⟨before, behind, rfl, hstart, hstop⟩ := h
  rw [byteSize_append, byteSize_append]
  omega

theorem Token.Covers.start_lt {t : Token} {text covered : List Char} (h : t.Covers text covered)
    (hne : covered ≠ []) : t.start < t.stop := by
  obtain ⟨_, _, -, -, hstop⟩ := h
  obtain ⟨c, cs, rfl⟩ := List.exists_cons_of_ne_nil hne
  have hpos := c.utf8Size_pos
  rw [byteSize_cons] at hstop
  omega

theorem Scan.eq_of_byteSize_eq {front front' cs : List Char} (h : front <+: cs)
    (h' : front' <+: cs) (hsize : byteSize front = byteSize front') : front = front' := by
  have hfront := isPrefix_of_byteSize_le h h' (Nat.le_of_eq hsize)
  have hfront' := isPrefix_of_byteSize_le h' h (Nat.le_of_eq hsize.symm)
  exact hfront.eq_of_length_le hfront'.length_le

/-- A text has the same characters between the same bytes. -/
theorem Token.Covers.unique {t : Token} {text covered covered' : List Char}
    (h : t.Covers text covered) (h' : t.Covers text covered') : covered = covered' := by
  obtain ⟨before, behind, htext, hstart, hstop⟩ := h
  obtain ⟨before', behind', htext', hstart', hstop'⟩ := h'
  rw [List.append_assoc] at htext htext'
  obtain rfl : before = before' :=
    Scan.eq_of_byteSize_eq ⟨_, htext.symm⟩ ⟨_, htext'.symm⟩ (by omega)
  have hrest := List.append_cancel_left (htext.symm.trans htext')
  exact Scan.eq_of_byteSize_eq (List.prefix_append covered behind) ⟨behind', hrest.symm⟩ (by omega)

/-- What the piece is taken for is spelled by its characters. -/
def Piece.Spells (mode : Mode) (p : Piece) : Prop :=
  ∀ kind, p.meaning = .token kind → kind.SpelledBy mode p.text

namespace Scan

variable {mode : Mode} {rules : ScanRules} {text : List Char} {kind : Token.Kind}

/-! ## What a piece is taken for -/

theorem isVerbatim_of_sign? {c : Char} (h : sign? c = some kind) : kind.IsVerbatim = false := by
  cases kind with
  | num literal => exact absurd rfl (sign?_ne_num h literal)
  | ident name => exact absurd h sign?_ne_ident
  | _ => rfl

theorem spelledBy_of_not_verbatim (h : kind.IsVerbatim = false) (covered : List Char) :
    kind.SpelledBy mode covered := by
  cases kind with
  | num literal => cases h
  | ident name => cases h
  | _ => trivial

theorem spelledBy_name (name : List Char) :
    (Token.Kind.ident (String.ofList name)).SpelledBy mode name := by
  constructor
  · rw [String.toList_ofList]
  · exact fun _ => String.toList_ofList

/-- The percent sign of the units, behind a backslash. -/
theorem spelledBy_escaped : (Token.Kind.ident "%").SpelledBy .units ['\\', '%'] :=
  ⟨List.infix_cons List.infix_rfl, nofun⟩

theorem spells_layout : (Piece.layout text).Spells mode := nofun

theorem spells_misread (fault : Misread) : Piece.Spells mode ⟨text, .misread fault⟩ := nofun

theorem spells_token (h : kind.SpelledBy mode text) : (Piece.token text kind).Spells mode := by
  rintro _ ⟨⟩
  exact h

theorem spells_sign (h : kind.IsVerbatim = false) : (Piece.token text kind).Spells mode :=
  spells_token (spelledBy_of_not_verbatim h text)

theorem spells_name (name : List Char) :
    (Piece.token name (.ident (String.ofList name))).Spells mode :=
  spells_token (spelledBy_name name)

theorem signPiece_spells (mode : Mode) (depth : Nat) (c : Char) :
    (signPiece mode depth c).Spells mode := by
  fun_cases signPiece
  case case2 => exact spells_layout
  case case5 hpercent =>
    subst hpercent
    exact spells_token spelledBy_escaped
  case case7 => exact spells_misread _
  all_goals exact spells_sign rfl

theorem commandPiece_spells (depth : Nat) (letters rest : List Char) :
    (commandPiece depth letters rest).1.Spells mode := by
  have hcase := commandPiece_cases depth letters rest
  generalize commandPiece depth letters rest = next at hcase
  cases hcase with
  | layout htext => exact spells_layout
  | token htext hkind => exact spells_sign hkind
  | bracket htext hkind =>
    apply spells_sign
    rcases List.mem_pair.1 hkind with rfl | rfl <;> rfl
  | letter hgreek hname => exact spells_name _
  | undecorated hfault => exact spells_misread _
  | wrong htext hcode => exact spells_misread _

theorem numberPiece_spells (c : Char) (cs : List Char) : (numberPiece c cs).Spells mode := by
  unfold numberPiece
  split
  · exact spells_misread _
  · split
    · exact spells_token String.toList_ofList
    · exact spells_misread _

theorem namePiece_spells (rules : ScanRules) (c : Char) (cs : List Char) :
    (namePiece rules c cs).Spells rules.mode := by
  unfold namePiece
  dsimp only
  split
  · exact spells_name _
  · split
    · exact spells_misread _
    · split
      · exact spells_sign rfl
      · exact spells_name _

theorem nextPiece_spells (rules : ScanRules) (depth : Nat) (c : Char) (cs : List Char) :
    (nextPiece rules depth c cs).1.Spells rules.mode := by
  fun_cases nextPiece
  case case1 => exact spells_misread _
  case case2 => exact commandPiece_spells _ _ _
  case case3 => exact signPiece_spells _ _ _
  case case4 hkind => exact spells_sign (isVerbatim_of_sign? hkind)
  case case5 =>
    dsimp only
    split
    · exact spells_sign rfl
    split
    · rename_i hpercent
      subst hpercent
      split
      · exact spells_name ['%']
      · exact spells_sign rfl
    split
    · exact spells_layout
    split
    · exact numberPiece_spells c cs
    split
    · exact namePiece_spells rules c cs
    · exact spells_misread _

/-! ## Pieces of a text -/

/-- The pieces make up the text. Each of them has characters of its own, and the property. -/
inductive Tiles (Q : Piece → Prop) : List Char → List Piece → Prop where
  | nil : Tiles Q [] []
  | cons {p : Piece} {rest : List Char} {ps : List Piece} (hne : p.text ≠ []) (hp : Q p)
      (others : Tiles Q rest ps) : Tiles Q (p.text ++ rest) (p :: ps)

theorem piecesFrom_tiles {Q : Piece → Prop}
    (hQ : ∀ depth c cs, Q (nextPiece rules depth c cs).1) :
    ∀ (depth : Nat) (cs : List Char), Tiles Q cs (piecesFrom rules depth 0 cs)
  | _, [] => .nil
  | depth, c :: cs => by
    have hp := hQ depth c cs
    have hne := nextPiece_ne_nil rules depth c cs
    rcases hnext : nextPiece rules depth c cs with ⟨⟨text, meaning⟩, depth'⟩
    rw [hnext] at hp hne
    obtain ⟨_, -, hsplit⟩ := piece_append hnext
    rw [piecesFrom, hnext]
    dsimp only
    rw [piecesFrom_drop, hsplit]
    exact .cons hne hp (piecesFrom_tiles hQ depth' _)
termination_by _ cs => cs.length

variable {Q : Piece → Prop} {ps : List Piece} {cs : List Char}

theorem Tiles.joined (h : Tiles Q cs ps) : ps.flatMap Piece.text = cs := by
  induction h with
  | nil => rfl
  | cons hne _ others ih => rw [List.flatMap_cons, ih]

theorem Tiles.ne_nil (h : Tiles Q cs ps) : ∀ p ∈ ps, p.text ≠ [] := by
  induction h with
  | nil => nofun
  | cons hne _ others ih => exact List.forall_mem_cons.2 ⟨hne, ih⟩

theorem Tiles.length_le (h : Tiles Q cs ps) : ps.length ≤ cs.length := by
  induction h with
  | nil => exact Nat.le_refl 0
  | cons hne _ others ih =>
    have hpos := List.length_pos_iff.2 hne
    rw [List.length_cons, List.length_append]
    omega

/-- A token of some pieces is that of the first one, or one of the others. -/
theorem mem_place_cons {start : Nat} {p : Piece} {t : Token} (ht : .ok t ∈ place start (p :: ps)) :
    (p.meaning = .token t.kind ∧ t.start = start ∧ t.stop = start + byteSize p.text) ∨
      .ok t ∈ place (start + byteSize p.text) ps := by
  rw [place] at ht
  cases hmeaning : p.meaning with
  | layout =>
    rw [hmeaning] at ht
    exact .inr ht
  | token kind =>
    rw [hmeaning] at ht
    rcases List.mem_cons.1 ht with heq | ht
    · cases heq
      exact .inl ⟨rfl, rfl, rfl⟩
    · exact .inr ht
  | misread fault =>
    rw [hmeaning] at ht
    rcases List.mem_cons.1 ht with heq | ht
    · cases heq
    · exact .inr ht

/-- A token covers the characters of its piece. -/
theorem Tiles.covers (h : Tiles Q cs ps) (before : List Char) {t : Token}
    (ht : .ok t ∈ place (byteSize before) ps) :
    ∃ covered, covered ≠ [] ∧ t.Covers (before ++ cs) covered ∧ Q (.token covered t.kind) := by
  induction h generalizing before with
  | nil => cases ht
  | @cons p rest ps hne hp others ih =>
    rw [← List.append_assoc]
    rcases mem_place_cons ht with ⟨hmeaning, hstart, hstop⟩ | ht
    · have hpiece : p = .token p.text t.kind := congrArg (Piece.mk p.text) hmeaning
      exact ⟨p.text, hne, ⟨before, rest, rfl, hstart, hstart ▸ hstop⟩, hpiece ▸ hp⟩
    · rw [← byteSize_append] at ht
      exact ih (before ++ p.text) ht

/-! ## Items of pieces -/

theorem length_place_le (start : Nat) (ps : List Piece) : (place start ps).length ≤ ps.length := by
  induction ps generalizing start with
  | nil => exact Nat.le_refl 0
  | cons p ps ih =>
    have hothers := ih (start + byteSize p.text)
    rw [place]
    cases p.meaning with
    | layout => exact Nat.le_succ_of_le hothers
    | token kind => exact Nat.succ_le_succ hothers
    | misread fault => exact Nat.succ_le_succ hothers

/-- A piece and those behind it have no token that begins before it does. -/
theorem le_start_of_place {start : Nat} {t : Token} (ht : .ok t ∈ place start ps) :
    start ≤ t.start := by
  induction ps generalizing start with
  | nil => cases ht
  | cons p ps ih =>
    rcases mem_place_cons ht with ⟨-, hstart, -⟩ | ht
    · exact Nat.le_of_eq hstart.symm
    · exact Nat.le_trans (Nat.le_add_right _ _) (ih ht)

/-- The second item is no token that begins before the first one ends. -/
def Behind (x y : Except SourceError Token) : Prop :=
  ∀ t u, x = .ok t → y = .ok u → t.stop ≤ u.start

theorem place_pairwise (start : Nat) (ps : List Piece) : (place start ps).Pairwise Behind := by
  induction ps generalizing start with
  | nil => exact .nil
  | cons p ps ih =>
    have hothers := ih (start + byteSize p.text)
    rw [place]
    cases p.meaning with
    | layout => exact hothers
    | token kind =>
      refine List.pairwise_cons.2 ⟨?_, hothers⟩
      rintro _ hmem t u ⟨⟩ rfl
      exact le_start_of_place hmem
    | misread fault =>
      refine List.pairwise_cons.2 ⟨?_, hothers⟩
      rintro _ - t u ⟨⟩

theorem mem_of_mapM_id {xs : List (Except SourceError Token)} {ts : List Token}
    (h : xs.mapM id = .ok ts) : ∀ t ∈ ts, .ok t ∈ xs := by
  induction xs generalizing ts with
  | nil =>
    cases h
    nofun
  | cons x xs ih =>
    rw [List.mapM_cons] at h
    obtain ⟨t, hx, h⟩ := bind_eq_ok.1 h
    obtain ⟨us, hxs, h⟩ := bind_eq_ok.1 h
    cases h
    refine List.forall_mem_cons.2 ⟨?_, fun u hu => List.mem_cons_of_mem x (ih hxs u hu)⟩
    exact List.mem_cons.2 (.inl hx.symm)

/-- The tokens of a text without faults are its pieces. -/
theorem covers_of_tokens (hQ : ∀ depth c cs, Q (nextPiece rules depth c cs).1) {text : String}
    {ts : List Token} (h : tokens rules text = .ok ts) {t : Token} (ht : t ∈ ts) :
    ∃ covered, covered ≠ [] ∧ t.Covers text.toList covered ∧ Q (.token covered t.kind) :=
  (piecesFrom_tiles hQ 0 text.toList).covers [] (mem_of_mapM_id h t ht)

end Scan

open Scan in
/-- The scanner takes characters from every text until there are none left, and makes at most one
item of those that it takes, whatever can be read. A token covers at least one character of the text
and none that is covered by the token before it; a number and an identifier are spelled in what
their token covers, and, but for the percent sign of the units, by all of it. -/
theorem scan_tiles (rules : ScanRules) (text : String) :
    ((pieces rules text.toList).flatMap Piece.text = text.toList ∧
        ∀ p ∈ pieces rules text.toList, p.text ≠ []) ∧
      (scan rules text).length ≤ text.toList.length ∧
      (∀ t, .ok t ∈ scan rules text →
        t.start < t.stop ∧ t.stop ≤ byteSize text.toList ∧
          ∃ covered, t.Covers text.toList covered ∧ t.kind.SpelledBy rules.mode covered) ∧
      (scan rules text).Pairwise Behind := by
  have htiles := piecesFrom_tiles (nextPiece_spells rules) 0 text.toList
  refine ⟨⟨htiles.joined, htiles.ne_nil⟩, ?_, ?_, place_pairwise 0 _⟩
  · calc (scan rules text).length ≤ (pieces rules text.toList).length := length_place_le 0 _
      _ ≤ text.toList.length := htiles.length_le
  · intro t ht
    obtain ⟨covered, hne, hcovers, hspelled⟩ := htiles.covers [] ht
    exact ⟨hcovers.start_lt hne, hcovers.stop_le, covered, hcovers, hspelled _ rfl⟩

end Worksheet
