import Worksheet.Proofs.Number.Numeral
import Worksheet.Proofs.Span
import Worksheet.Proofs.Text.Blank
import Worksheet.Proofs.Token.Pieces
import Worksheet.Proofs.Token.Scans
/-!
# Places of tokens and faults

The tokens of a text lie one behind the other in it. A text that cannot be cut into tokens ends with
an error of the scanner's own kind, at a place in the text.
-/

namespace Worksheet

open Text

/-- An error with the code tells of a document, and not of the program that runs it. -/
def ErrorCode.External (code : ErrorCode) : Prop := code.kind ≠ .internal

instance : DecidablePred ErrorCode.External :=
  fun code => inferInstanceAs (Decidable (code.kind ≠ .internal))

theorem ErrorCode.external_iff {code : ErrorCode} : code.External ↔ code ≠ .unknownSymbolId := by
  cases code <;> simp [External, kind]

/-- The fault is one of scanning, and lies in a text of so many bytes. -/
structure Misread.Lexical (size : Nat) (fault : Misread) : Prop where
  kind : fault.code.kind = .lex
  ordered : fault.start ≤ fault.stop
  bounded : fault.stop ≤ size

/-- The piece is the beginning of a text. A number is spelled as it stands there, and if the piece
cannot be read, that is a fault of scanning somewhere in the text. -/
structure Piece.Begins (cs : List Char) (p : Piece) : Prop where
  front : p.text <+: cs
  number : ∀ literal, p.meaning = .token (.num literal) → p.text = literal.toList
  fault : ∀ fault, p.meaning = .misread fault → fault.Lexical (byteSize cs)

namespace Scan

variable {cs text : List Char}

theorem begins_layout (h : text <+: cs) : (Piece.layout text).Begins cs := ⟨h, nofun, nofun⟩

theorem begins_token {kind : Token.Kind} (h : text <+: cs)
    (hkind : ∀ literal, kind ≠ .num literal) :
    (Piece.token text kind).Begins cs where
  front := h
  number literal hliteral := absurd (Meaning.token.inj hliteral) (hkind literal)
  fault := nofun

theorem begins_wrong {code : ErrorCode} (h : text <+: cs) (hcode : code.kind = .lex) :
    (Piece.wrong text code).Begins cs where
  front := h
  number := nofun
  fault := by
    rintro _ ⟨⟩
    exact ⟨hcode, Nat.zero_le _, byteSize_le_of_prefix h⟩

theorem begins_misread {fault : Misread} (h : text <+: cs)
    (hfault : fault.Lexical (byteSize cs)) : Piece.Begins cs ⟨text, .misread fault⟩ where
  front := h
  number := nofun
  fault := by
    rintro _ ⟨⟩
    exact hfault

/-! ## Names -/

theorem decoration_meets (cs : List Char) :
    Meets (Misread.Lexical (byteSize cs)) (fun _ => True) (decoration cs) := by
  have hsign : ∀ c : Char, ['_', '\\', '\x7b'].contains c → c.utf8Size = 1 := by
    intro c hc
    rcases (by simpa using hc : c = '_' ∨ c = '\\' ∨ c = '\x7b') with rfl | rfl | rfl <;> rfl
  unfold decoration
  split
  · split
    · exact .ok trivial
    · refine .error ⟨rfl, Nat.zero_le _, ?_⟩
      simp only [byteSize_cons, hsign '_' rfl, hsign '\x7b' rfl]
      omega
  · split
    · refine .error ⟨rfl, Nat.zero_le _, ?_⟩
      simp only [byteSize_cons, hsign '_' rfl, hsign '\\' rfl]
      omega
    · exact .ok trivial
  · split
    · refine .error ⟨rfl, Nat.zero_le _, ?_⟩
      simp only [byteSize_cons, hsign '_' rfl]
      omega
    · exact .ok trivial
  · exact .ok trivial
  · exact .ok trivial

theorem following_meets {c : Char} {r : Except Misread (List Char)}
    (h : Meets (Misread.Lexical (byteSize cs)) (· <+: cs) r) :
    Meets (Misread.Lexical (byteSize (c :: cs))) (· <+: c :: cs) (following c r) := by
  cases h with
  | ok h => exact .ok (List.cons_prefix_cons.2 ⟨rfl, h⟩)
  | error hfault =>
    exact .error ⟨hfault.kind, Nat.add_le_add_left hfault.ordered _,
      Nat.add_le_add_left hfault.bounded _⟩

theorem decorationsFrom_meets (n : Nat) (cs : List Char) :
    Meets (Misread.Lexical (byteSize cs)) (· <+: cs) (decorationsFrom n cs) := by
  induction cs generalizing n with
  | nil => cases n <;> exact .ok List.prefix_rfl
  | cons c cs ih =>
    cases n with
    | succ n => exact following_meets (ih n)
    | zero =>
      have hfirst := decoration_meets (c :: cs)
      unfold decorationsFrom
      split
      · rename_i fault hfault
        exact .error (hfirst.fault hfault)
      · exact .ok List.nil_prefix
      · exact following_meets (ih _)

theorem decorate_meets (name rest : List Char) :
    Meets (Misread.Lexical (byteSize (name ++ rest))) (· <+: name ++ rest)
      (decorate name rest) := by
  unfold decorate
  induction name with
  | nil => exact decorationsFrom_meets 0 rest
  | cons c name ih => exact following_meets ih

theorem namePiece_begins (rules : ScanRules) (c : Char) (cs : List Char) :
    (namePiece rules c cs).Begins (c :: cs) := by
  have hsplit : c :: cs.takeWhile (continuesName rules.mode) ++
      cs.dropWhile (continuesName rules.mode) = c :: cs := by
    rw [List.cons_append, List.takeWhile_append_dropWhile]
  have hbase : c :: cs.takeWhile (continuesName rules.mode) <+: c :: cs := ⟨_, hsplit⟩
  have hname := decorate_meets (c :: cs.takeWhile (continuesName rules.mode))
    (cs.dropWhile (continuesName rules.mode))
  rw [hsplit] at hname
  unfold namePiece
  dsimp only
  split
  · exact begins_token hbase nofun
  · split
    · rename_i fault hfault
      exact begins_misread hbase (hname.fault hfault)
    · rename_i name hdecorated
      split
      · exact begins_token hbase nofun
      · exact begins_token (hname.result hdecorated) nofun

/-! ## Numbers -/

theorem excess_isPrefix (cs : List Char) : excess cs <+: cs := by
  unfold excess
  split
  · exact List.cons_prefix_cons.2 ⟨rfl, List.takeWhile_prefix _⟩
  · rename_i c cs _
    split
    · split
      · exact List.prefix_rfl
      · split
        · exact List.cons_prefix_cons.2 ⟨rfl, List.cons_prefix_cons.2 ⟨rfl, List.nil_prefix⟩⟩
        · split
          · exact List.nil_prefix
          · exact List.cons_prefix_cons.2 ⟨rfl, List.nil_prefix⟩
    · exact List.nil_prefix
  · exact List.nil_prefix

theorem numberPiece_begins (c : Char) (cs : List Char) : (numberPiece c cs).Begins (c :: cs) := by
  unfold numberPiece
  split
  · exact begins_wrong (List.cons_prefix_cons.2 ⟨rfl, List.nil_prefix⟩) rfl
  · rename_i number rest hsplit
    have hcs : number ++ rest = c :: cs := Number.Numeral.append_of_split? hsplit
    split
    · refine ⟨⟨rest, hcs⟩, ?_, nofun⟩
      rintro _ ⟨⟩
      exact (String.toList_ofList).symm
    · refine begins_wrong ?_ rfl
      rw [← hcs]
      exact (List.prefix_append_right_inj number).2 (excess_isPrefix rest)

/-! ## Commands -/

theorem signPiece_begins (mode : Mode) (depth : Nat) (c : Char) (cs : List Char) :
    (signPiece mode depth c).Begins ('\\' :: c :: cs) := by
  have htext : ['\\', c] <+: '\\' :: c :: cs := ⟨cs, rfl⟩
  fun_cases signPiece
  case case2 => exact begins_layout htext
  case case7 => exact begins_wrong htext rfl
  all_goals exact begins_token htext nofun

theorem commandPiece_begins (depth : Nat) (letters rest : List Char) :
    (commandPiece depth letters rest).1.Begins ('\\' :: letters ++ rest) := by
  have hdecorate := decorate_meets ('\\' :: letters) rest
  have hcase := commandPiece_cases depth letters rest
  generalize commandPiece depth letters rest = next at hcase
  cases hcase with
  | layout htext => exact begins_layout htext.front
  | token htext hkind => exact begins_token htext.front (Token.Kind.ne_num hkind)
  | bracket htext hkind => exact begins_token htext.front (by rintro literal rfl; simp at hkind)
  | letter hgreek hname => exact begins_token (hdecorate.result hname) nofun
  | undecorated hfault =>
    exact begins_misread (List.prefix_append _ _) (hdecorate.fault hfault)
  | wrong htext hcode => exact begins_wrong htext.front hcode

theorem sign?_ne_num {c : Char} {kind : Token.Kind} (h : sign? c = some kind) (literal : String) :
    kind ≠ .num literal := by
  rintro rfl
  unfold sign? at h
  split at h <;> cases h

theorem nextPiece_begins (rules : ScanRules) (depth : Nat) (c : Char) (cs : List Char) :
    (nextPiece rules depth c cs).1.Begins (c :: cs) := by
  have hfirst : [c] <+: c :: cs := ⟨cs, rfl⟩
  fun_cases nextPiece
  case case1 => exact begins_wrong List.prefix_rfl rfl
  case case2 hslash d ds hd =>
    subst hslash
    have h := commandPiece_begins depth (d :: ds.takeWhile Char.isAlpha)
      (ds.dropWhile Char.isAlpha)
    rwa [List.cons_append, List.cons_append, List.takeWhile_append_dropWhile] at h
  case case3 hslash d ds hd =>
    subst hslash
    exact signPiece_begins _ _ _ _
  case case4 hkind => exact begins_token hfirst (sign?_ne_num hkind)
  case case5 =>
    dsimp only
    split
    · exact begins_token hfirst nofun
    split
    · split <;> exact begins_token hfirst nofun
    split
    · exact begins_layout hfirst
    split
    · exact numberPiece_begins c cs
    split
    · exact namePiece_begins rules c cs
    · exact begins_wrong hfirst (by split <;> rfl)

end Scan

/-! ## Tokens -/

/-- Tokens lie one behind the other between two positions, and numbers have room for their
digits. -/
def Spread (lo hi : Nat) : List Token → Prop
  | [] => lo ≤ hi
  | t :: ts => lo ≤ t.start ∧ t.start ≤ t.stop ∧
      (∀ literal, t.kind = .num literal → t.start + byteSize literal.toList ≤ t.stop) ∧
      Spread t.stop hi ts

namespace Spread

variable {lo lo' hi : Nat} {t : Token} {ts : List Token}

theorem lower (h : Spread lo hi ts) (hlo : lo' ≤ lo) : Spread lo' hi ts := by
  cases ts with
  | nil => exact Nat.le_trans hlo h
  | cons t ts => exact ⟨Nat.le_trans hlo h.1, h.2⟩

theorem le (h : Spread lo hi ts) : lo ≤ hi := by
  induction ts generalizing lo with
  | nil => exact h
  | cons t ts ih =>
    calc lo ≤ t.start := h.1
      _ ≤ t.stop := h.2.1
      _ ≤ hi := ih h.2.2.2

theorem last_le (h : Spread lo hi ts) : (ts.getLast?.map Token.stop).getD 0 ≤ hi := by
  cases hlast : ts.getLast? with
  | none => exact Nat.zero_le hi
  | some t =>
    induction ts generalizing lo with
    | nil => cases hlast
    | cons u ts ih =>
      cases ts with
      | nil =>
        cases hlast
        exact h.2.2.2
      | cons u' ts => exact ih h.2.2.2 hlast

end Spread

namespace Scan

/-- Where the next piece ends, the rest of the text begins. -/
theorem byteSize_drop_le {text : List Char} {c : Char} {cs : List Char} (h : text <+: c :: cs) :
    byteSize text + byteSize (cs.drop (text.length - 1)) ≤ byteSize (c :: cs) := by
  cases text with
  | nil => simp
  | cons d text =>
    obtain ⟨rfl, rest, rfl⟩ := List.cons_prefix_cons.1 h
    rw [List.length_cons, Nat.add_sub_cancel, List.drop_left, byteSize_cons, byteSize_cons,
      byteSize_append]
    omega

/-- The induction is on the length of the text: every piece takes a beginning of it. -/
theorem tokensFrom_meets (rules : ScanRules) {hi : Nat} :
    ∀ {start depth : Nat} {cs : List Char}, start + byteSize cs ≤ hi →
      Meets (fun e => e.code.kind = .lex ∧ e.span.Within 0 hi) (Spread start hi)
        (tokensFrom rules start depth cs)
  | start, depth, [], h => .ok h
  | start, depth, c :: cs, h => by
    have hbegins := nextPiece_begins rules depth c cs
    rw [tokensFrom_cons]
    generalize nextPiece rules depth c cs = next at hbegins
    obtain ⟨⟨text, meaning⟩, depth'⟩ := next
    have hsize := byteSize_drop_le hbegins.front
    have hothers : Meets (fun e => e.code.kind = .lex ∧ e.span.Within 0 hi)
        (Spread (start + byteSize text) hi)
        (tokensFrom rules (start + byteSize text) depth' (cs.drop (text.length - 1))) :=
      tokensFrom_meets rules (by dsimp only at hsize; omega)
    cases meaning with
    | layout => exact hothers.imp (fun _ he => he) fun ts hts => hts.lower (Nat.le_add_right _ _)
    | token kind =>
      apply hothers.bind
      intro ts hts
      refine .ok ⟨Nat.le_refl _, Nat.le_add_right _ _, fun literal hliteral => ?_, hts⟩
      have htext : text = literal.toList := hbegins.number literal (congrArg Meaning.token hliteral)
      rw [htext]
    | misread fault =>
      obtain ⟨hkind, hordered, hbounded⟩ := hbegins.fault fault rfl
      exact .error ⟨hkind, Span.within_ofBytes (Nat.zero_le _) (by omega) (by omega)⟩
termination_by _ _ cs => cs.length

end Scan

/-- The tokens of a text lie in it, and what is wrong with it is wrong at a place in it. -/
theorem tokens_meets (rules : ScanRules) (text : String) :
    Meets (fun e => e.code.kind = .lex ∧ e.span.Within 0 (byteSize text.toList))
      (Spread 0 (byteSize text.toList)) (tokens rules text) :=
  Scan.tokensFrom_meets rules (Nat.le_of_eq (Nat.zero_add _))

end Worksheet
