import Worksheet.Proofs.Expr.Alike
import Worksheet.Proofs.Token.Sizing
import Worksheet.Proofs.Token.Squeezed
import Worksheet.UnitTable.Expression
/-!
# Units without spaces behind commands

Spaces behind commands change nothing in the units that a text says. So the units of a plain
spelling are those of the text it was made from, if the spelling is settled.
-/

namespace Worksheet

open Text

/-- The same layout, the same token up to the spelling of a function, or the same error. -/
inductive Meaning.Same : Meaning → Meaning → Prop where
  | layout : Same .layout .layout
  | token {kind kind' : Token.Kind} (h : kind.Same kind') : Same (.token kind) (.token kind')
  | misread {fault fault' : Misread} (h : fault.code = fault'.code) :
      Same (.misread fault) (.misread fault')

theorem Meaning.same_refl (meaning : Meaning) : meaning.Same meaning := by
  cases meaning with
  | layout => exact .layout
  | token kind => exact .token (.refl kind)
  | misread fault => exact .misread rfl

namespace Scan

variable {rules : ScanRules} {depth : Nat} {c : Char} {cs cs' ds ds' : List Char}

/-! ## Pieces -/

/-- The pieces that two texts begin with mean the same, and behind them, up to spaces, the second
text is the first one squeezed. -/
structure Alike (cs cs' : List Char) (next next' : Piece × Nat) : Prop where
  meaning : next.1.meaning.Same next'.1.meaning
  depth : next.2 = next'.2
  rest : (∀ fault, next.1.meaning ≠ .misread fault) → ∃ gap gap' ds ds',
    (∀ c ∈ gap, c = ' ') ∧ (∀ c ∈ gap', c = ' ') ∧ Squeezed ds ds' ∧
      cs = next.1.text ++ (gap ++ ds) ∧ cs' = next'.1.text ++ (gap' ++ ds')

theorem alike_ite {p : Prop} [Decidable p] {a a' b b' : Piece × Nat}
    (ha : p → Alike cs cs' a a') (hb : ¬p → Alike cs cs' b b') :
    Alike cs cs' (if p then a else b) (if p then a' else b') := by
  by_cases h : p
  · rw [if_pos h, if_pos h]
    exact ha h
  · rw [if_neg h, if_neg h]
    exact hb h

theorem alike_wrong {text text' : List Char} {code : ErrorCode} :
    Alike cs cs' (.wrong text code, depth) (.wrong text' code, depth) where
  meaning := .misread rfl
  depth := rfl
  rest hread := absurd rfl (hread _)

/-- Pieces of the same meaning that leave squeezed texts. -/
theorem alike_behind {piece piece' : Piece} (hmeaning : piece.meaning.Same piece'.meaning)
    (h : Squeezed ds ds') (hcs : cs = piece.text ++ ds) (hcs' : cs' = piece'.text ++ ds') :
    Alike cs cs' (piece, depth) (piece', depth) where
  meaning := hmeaning
  depth := rfl
  rest _ := ⟨[], [], ds, ds', nofun, nofun, h, hcs, hcs'⟩

/-! ### Groups -/

theorem argument_closed (code : ErrorCode) (command : List Char) {rest body after : List Char}
    (hopen : trimStart rest = '\x7b' :: cs) (hclosed : untilClosed 0 cs = some (body, after)) :
    ∃ text, argument code command rest = .ok (text, body) ∧ command ++ rest = text ++ after := by
  have hrest : rest.takeWhile isBlank ++ trimStart rest = rest := List.takeWhile_append_dropWhile
  rw [hopen, ← append_of_untilClosed hclosed] at hrest
  refine ⟨command ++ rest.takeWhile isBlank ++ '\x7b' :: body ++ ['\x7d'], ?_, ?_⟩
  · rw [argument, hopen]
    simp only [hclosed]
  · generalize rest.takeWhile isBlank = gap at hrest
    rw [← hrest]
    simp

theorem argument_unclosed (code : ErrorCode) (command : List Char) {rest : List Char}
    (h : ∀ cs, trimStart rest = '\x7b' :: cs → untilClosed 0 cs = none) :
    ∃ text, argument code command rest = .error (.wrong text code) := by
  unfold argument
  dsimp only
  split
  · rename_i heq
    rw [h _ heq]
    exact ⟨_, rfl⟩
  · exact ⟨_, rfl⟩

/-- A command takes the same group from both texts, or none from either. -/
theorem argument_squeezed {rest rest' : List Char}
    (h : Squeezed (trimStart rest) (trimStart rest')) (code : ErrorCode) (command : List Char) :
    (∃ text text', argument code command rest = .error (.wrong text code) ∧
        argument code command rest' = .error (.wrong text' code)) ∨
      ∃ text text' body body' ds ds', argument code command rest = .ok (text, body) ∧
        argument code command rest' = .ok (text', body') ∧ Squeezed body body' ∧ Squeezed ds ds' ∧
        command ++ rest = text ++ ds ∧ command ++ rest' = text' ++ ds' := by
  by_cases hclosed : ∃ cs body ds, trimStart rest = '\x7b' :: cs ∧
      untilClosed 0 cs = some (body, ds)
  · obtain ⟨cs, body, ds, hopen, hclosed⟩ := hclosed
    rw [hopen] at h
    obtain ⟨cs', hopen', hsqueezed⟩ := Squeezed.of_cons (by decide) h
    have hgroup := hsqueezed.untilClosed 0
    rw [hclosed] at hgroup
    obtain ⟨body', ds', hclosed', hbody, hds⟩ := hgroup.of_some
    obtain ⟨text, htext, hcs⟩ := argument_closed code command hopen hclosed
    obtain ⟨text', htext', hcs'⟩ := argument_closed code command hopen' hclosed'
    exact .inr ⟨text, text', body, body', ds, ds', htext, htext', hbody, hds, hcs, hcs'⟩
  · have hnone : ∀ cs, trimStart rest = '\x7b' :: cs → untilClosed 0 cs = none := by
      intro cs hopen
      rw [Option.eq_none_iff_forall_ne_some]
      exact fun a ha => hclosed ⟨cs, a.1, a.2, hopen, ha⟩
    have hnone' : ∀ cs', trimStart rest' = '\x7b' :: cs' → untilClosed 0 cs' = none := by
      intro cs' hopen'
      have hhead := h.head?_eq
      rw [hopen'] at hhead
      obtain ⟨cs, hopen⟩ := List.head?_eq_some_iff.1 hhead
      rw [hopen, hopen'] at h
      obtain ⟨_, ⟨⟩, hsqueezed⟩ := Squeezed.of_cons (by decide) h
      have hgroup := hsqueezed.untilClosed 0
      rw [hnone cs hopen] at hgroup
      exact hgroup.of_none
    obtain ⟨text, htext⟩ := argument_unclosed code command hnone
    obtain ⟨text', htext'⟩ := argument_unclosed code command hnone'
    exact .inl ⟨text, text', htext, htext'⟩

/-- The name of a function does not depend on the spaces inside. -/
theorem ofSpelling_squeezed (h : Squeezed cs cs') :
    Name.ofSpelling (String.ofList (trim cs)) = Name.ofSpelling (String.ofList (trim cs')) := by
  have hlayout : ∀ c, isBlank c → (!Name.isLayout c) = false := by
    intro c hc
    simp [Name.isLayout, hc]
  rw [Name.ofSpelling, Name.ofSpelling, String.toList_ofList, String.toList_ofList, Name.spell,
    Name.spell, filter_trim hlayout, filter_trim hlayout, h.filter (hlayout ' ' (by decide))]

/-- There are no commands in the name of a matrix. -/
theorem matrixEnvironments_squeezed (h : Squeezed cs cs') :
    matrixEnvironments.contains (String.ofList (trim cs)) =
      matrixEnvironments.contains (String.ofList (trim cs')) := by
  have hblank : ∀ c, isBlank c → (c == '\\') = false := by
    rintro c hc
    refine beq_false_of_ne ?_
    rintro rfl
    exact absurd hc (by decide)
  have hnone : ∀ {cs : List Char}, '\\' ∈ cs →
      matrixEnvironments.contains (String.ofList (trim cs)) = false := by
    intro cs hslash
    have hnames : ∀ name ∈ matrixEnvironments, '\\' ∉ name.toList := by decide
    rw [Bool.eq_false_iff]
    intro hmatrix
    have hnot := hnames _ (List.contains_iff_mem.1 hmatrix)
    rw [String.toList_ofList] at hnot
    have hmem : '\\' ∈ cs.filter (· == '\\') := List.mem_filter.2 ⟨hslash, by decide⟩
    rw [← filter_trim hblank] at hmem
    exact hnot (List.mem_filter.1 hmem).1
  by_cases hslash : '\\' ∈ cs
  · have hmem : '\\' ∈ cs.filter (· == '\\') := List.mem_filter.2 ⟨hslash, by decide⟩
    rw [h.filter (by decide)] at hmem
    rw [hnone hslash, hnone (List.mem_filter.1 hmem).1]
  · rw [h.eq_of_not_mem hslash]

/-! ### Commands -/

theorem environmentPiece_squeezed {rest rest' : List Char}
    (h : Squeezed (trimStart rest) (trimStart rest')) (opens : Bool) (command : List Char) :
    Alike (command ++ rest) (command ++ rest') (environmentPiece depth opens command rest)
      (environmentPiece depth opens command rest') := by
  unfold environmentPiece
  rcases argument_squeezed h .unclosedGroup command with
    ⟨text, text', hpiece, hpiece'⟩ |
      ⟨text, text', body, body', ds, ds', htext, htext', hbody, hds, hrest, hrest'⟩
  · rw [hpiece, hpiece']
    exact alike_wrong
  · rw [htext, htext']
    dsimp only
    rw [matrixEnvironments_squeezed hbody]
    refine alike_ite (fun _ => alike_ite (fun _ => ?_) fun _ => ?_) fun _ => alike_wrong
    · exact alike_behind (.token (.refl _)) hds hrest hrest'
    · exact alike_behind (.token (.refl _)) hds hrest hrest'

theorem commandPiece_squeezed {name gap : List Char}
    (hwrapper : ¬UnitText.wrappers.contains (String.ofList name)) (hgap : ∀ c ∈ gap, c = ' ')
    (h : Squeezed cs cs') :
    Alike ('\\' :: (name ++ ' ' :: (gap ++ cs))) ('\\' :: (name ++ ' ' :: cs'))
      (commandPiece depth name (' ' :: (gap ++ cs))) (commandPiece depth name (' ' :: cs')) := by
  have hspaces : ∀ c ∈ ' ' :: gap, c = ' ' := List.forall_mem_cons.2 ⟨rfl, hgap⟩
  have hblank : ∀ c ∈ ' ' :: gap, isBlank c := fun c hc => by
    rw [hspaces c hc]
    decide
  have htrim : Squeezed (trimStart (' ' :: (gap ++ cs))) (trimStart (' ' :: cs')) := by
    have hleft : trimStart (' ' :: gap ++ cs) = trimStart cs := List.dropWhile_append_of_pos hblank
    have hright : trimStart (' ' :: cs') = trimStart cs' := rfl
    rw [hright, ← List.cons_append, hleft]
    exact h.trimStart
  have hplain : ∀ meaning, Alike ('\\' :: (name ++ ' ' :: (gap ++ cs)))
      ('\\' :: (name ++ ' ' :: cs')) (⟨'\\' :: name, meaning⟩, depth)
      (⟨'\\' :: name, meaning⟩, depth) := fun meaning =>
    { meaning := meaning.same_refl
      depth := rfl
      rest := fun _ => ⟨' ' :: gap, [' '], cs, cs', hspaces, by simp, h, by simp, by simp⟩ }
  have hdecorate : ∀ r : List Char, decorate ('\\' :: name) (' ' :: r) = .ok ('\\' :: name) :=
    fun r => (@decorate_bareWord [] _ nofun (apart_cons (by decide) (by decide) r) _).2
  unfold commandPiece
  dsimp only
  rw [if_neg hwrapper, if_neg hwrapper]
  refine alike_ite (fun _ => hplain _) fun _ => ?_
  refine alike_ite (fun _ => hplain _) fun _ => ?_
  refine alike_ite (fun _ => ?_) fun _ => ?_
  · rw [hdecorate, hdecorate]
    exact hplain _
  refine alike_ite (fun _ => hplain _) fun _ => ?_
  refine alike_ite (fun _ => hplain _) fun _ => ?_
  refine alike_ite (fun _ => hplain _) fun _ => ?_
  refine alike_ite (fun _ => hplain _) fun _ => ?_
  refine alike_ite (fun _ => ?_) fun _ => ?_
  · rcases argument_squeezed htrim .unclosedGroup ('\\' :: name) with
      ⟨text, text', hpiece, hpiece'⟩ |
        ⟨text, text', body, body', ds, ds', htext, htext', hbody, hds, hrest, hrest'⟩
    · rw [hpiece, hpiece']
      exact alike_wrong
    · have hfunction : (Piece.token text (.function (String.ofList (trim body)))).meaning.Same
          (Piece.token text' (.function (String.ofList (trim body')))).meaning :=
        .token (.function (ofSpelling_squeezed hbody))
      rw [htext, htext']
      exact alike_behind hfunction hds hrest hrest'
  refine alike_ite (fun _ => environmentPiece_squeezed htrim true ('\\' :: name)) fun _ => ?_
  refine alike_ite (fun _ => environmentPiece_squeezed htrim false ('\\' :: name)) fun _ => ?_
  exact hplain _

/-! ### All pieces -/

/-- A piece of units does not depend on the text behind what ends it. -/
theorem nextPiece_append_breaks (hmode : rules.mode = .units) (hc : c ≠ '\\') {r : List Char}
    (hr : Breaks r) (xs : List Char) :
    nextPiece rules depth c (xs ++ r) = nextPiece rules depth c xs := by
  have hcontinues : ∀ d ∈ separators, continuesName .units d = false := by decide +kernel
  have hname : namePiece rules c (xs ++ r) = namePiece rules c xs := by
    unfold namePiece
    rw [hmode]
    dsimp only
    rw [takeWhile_append_stops (hr.stops hcontinues)]
  rw [nextPiece.eq_def, nextPiece.eq_def rules depth c xs, if_neg hc, if_neg hc,
    startsNumber_append hr, numberPiece_append_breaks hr, hname]

theorem nextPiece_squeezed (hmode : rules.mode = .units) (h : Squeezed (c :: cs) ds) :
    ∃ cs', ds = c :: cs' ∧
      Alike (c :: cs) (c :: cs') (nextPiece rules depth c cs) (nextPiece rules depth c cs') := by
  cases h with
  | slash => exact ⟨[], rfl, alike_wrong⟩
  | @char _ _ cs' hc others =>
    obtain ⟨xs, r, r', rfl, rfl, hxs, hr, hr', hsqueezed⟩ := others.exists_run
    have hslash : ∀ x ∈ c :: xs, x ≠ '\\' := List.forall_mem_cons.2 ⟨hc, hxs⟩
    obtain ⟨rest, hrest⟩ := (nextPiece_begins rules depth c xs).front
    refine ⟨xs ++ r', rfl, ?_⟩
    rw [nextPiece_append_breaks hmode hc hr, nextPiece_append_breaks hmode hc hr',
      ← List.cons_append, ← List.cons_append]
    generalize nextPiece rules depth c xs = next at hrest ⊢
    rw [← hrest] at hslash ⊢
    refine alike_behind (Meaning.same_refl _) (hsqueezed.append fun x hx => ?_)
      (List.append_assoc _ _ _) (List.append_assoc _ _ _)
    exact hslash x (List.mem_append_right _ hx)
  | @sign d cs cs' hd others =>
    have hnext : ∀ cs, nextPiece rules depth '\\' (d :: cs) =
        (signPiece rules.mode depth d, depth) := by
      intro cs
      change (if d.isAlpha then commandPiece depth (d :: cs.takeWhile Char.isAlpha)
        (cs.dropWhile Char.isAlpha) else (signPiece rules.mode depth d, depth)) = _
      rw [hd, if_neg (by decide)]
    refine ⟨d :: cs', rfl, ?_⟩
    rw [hnext, hnext]
    refine alike_behind (Meaning.same_refl _) others ?_ ?_
    · rw [signPiece_text]
      rfl
    · rw [signPiece_text]
      rfl
  | @command name gap cs cs' hne hname hwrapper hgap others =>
    have hstops : ∀ cs, Stops Char.isAlpha (' ' :: cs) := fun cs => stops_cons.2 (by decide)
    refine ⟨name ++ ' ' :: cs', rfl, ?_⟩
    rw [nextPiece_command hne hname (hstops _), nextPiece_command hne hname (hstops _)]
    exact commandPiece_squeezed hwrapper hgap others

/-! ## Tokens -/

theorem tokensFrom_spaces {gap : List Char} (hgap : ∀ c ∈ gap, c = ' ') (start : Nat)
    (cs : List Char) :
    ∃ start', tokensFrom rules start depth (gap ++ cs) = tokensFrom rules start' depth cs := by
  induction gap generalizing start with
  | nil => exact ⟨start, rfl⟩
  | cons c gap ih =>
    obtain ⟨rfl, hothers⟩ := List.forall_mem_cons.1 hgap
    obtain ⟨start', hstart'⟩ := ih hothers (start + byteSize [' '])
    refine ⟨start', ?_⟩
    rw [List.cons_append, tokensFrom_cons, nextPiece_space]
    exact hstart'

theorem drop_of_append {text rest : List Char} (hne : text ≠ []) (h : c :: cs = text ++ rest) :
    cs.drop (text.length - 1) = rest := by
  obtain ⟨d, text, rfl⟩ := List.exists_cons_of_ne_nil hne
  obtain ⟨rfl, rfl⟩ := List.cons.inj h
  rw [List.length_cons, Nat.add_sub_cancel]
  exact List.drop_left

/-- After the first piece the same tokens follow if they do in shorter texts. -/
theorem tokensFrom_alike {start start' : Nat}
    (h : Alike (c :: cs) (c :: cs') (nextPiece rules depth c cs) (nextPiece rules depth c cs'))
    (ih : ∀ {ds ds' : List Char}, Squeezed ds ds' → ds.length < (c :: cs).length →
      ∀ start start' depth, SameResult Expr.SameKinds (tokensFrom rules start depth ds)
        (tokensFrom rules start' depth ds')) :
    SameResult Expr.SameKinds (tokensFrom rules start depth (c :: cs))
      (tokensFrom rules start' depth (c :: cs')) := by
  have hne := nextPiece_ne_nil rules depth c cs
  have hne' := nextPiece_ne_nil rules depth c cs'
  rw [tokensFrom_cons, tokensFrom_cons]
  generalize nextPiece rules depth c cs = next at h hne ⊢
  generalize nextPiece rules depth c cs' = next' at h hne' ⊢
  obtain ⟨⟨text, meaning⟩, depth₁⟩ := next
  obtain ⟨⟨text', meaning'⟩, depth₁'⟩ := next'
  obtain ⟨hmeaning, hdepth, hrest⟩ := h
  dsimp only at hmeaning hdepth hrest hne hne' ⊢
  subst hdepth
  have hothers : (∀ fault, meaning ≠ .misread fault) → ∀ start start',
      SameResult Expr.SameKinds (tokensFrom rules start depth₁ (cs.drop (text.length - 1)))
        (tokensFrom rules start' depth₁ (cs'.drop (text'.length - 1))) := by
    intro hread start start'
    obtain ⟨gap, gap', ds, ds', hgap, hgap', hsqueezed, hcs, hcs'⟩ := hrest hread
    have hlt : ds.length < (c :: cs).length := by
      have hpos := List.length_pos_iff.2 hne
      rw [hcs, List.length_append, List.length_append]
      omega
    obtain ⟨start₁, hstart⟩ := @tokensFrom_spaces rules depth₁ gap hgap start ds
    obtain ⟨start₁', hstart'⟩ := @tokensFrom_spaces rules depth₁ gap' hgap' start' ds'
    rw [drop_of_append hne hcs, drop_of_append hne' hcs', hstart, hstart']
    exact ih hsqueezed hlt start₁ start₁' depth₁
  cases hmeaning with
  | layout => exact hothers nofun _ _
  | token hkind => exact (hothers nofun _ _).bind fun _ _ hts => .ok (.cons hkind hts)
  | misread hcode => exact .error hcode

/-- Squeezed texts are cut into the same tokens, or have the same fault first. -/
theorem tokensFrom_squeezed (hmode : rules.mode = .units) :
    ∀ {cs ds : List Char}, Squeezed cs ds → ∀ start start' depth : Nat,
      SameResult Expr.SameKinds (tokensFrom rules start depth cs) (tokensFrom rules start' depth ds)
  | [], _, .nil, _, _, _ => .ok .nil
  | c :: cs, ds, h, start, start', depth => by
    obtain ⟨cs', rfl, halike⟩ := @nextPiece_squeezed rules depth c cs ds hmode h
    exact tokensFrom_alike halike fun hrest hlt => tokensFrom_squeezed hmode hrest
termination_by cs => cs.length
decreasing_by exact hlt

end Scan

/-! ## Products -/

theorem literalInteger_same (span span' : Span) (value : Float) :
    SameResult Eq (literalInteger span value) (literalInteger span' value) := by
  unfold literalInteger
  split
  · exact .error rfl
  split
  · exact .error rfl
  split
  · exact .error rfl
  · exact .ok rfl

theorem integerOp_same (op : BinaryOp) (span span' : Span) (m n : Int) :
    SameResult Eq (integerOp op span m n) (integerOp op span' m n) := by
  unfold integerOp
  dsimp only
  split
  · exact .error rfl
  split
  · exact .ok rfl
  · exact .error rfl

namespace Expr

/-- The number that a tree says does not depend on its places. -/
theorem integer_bare : ∀ e : Expr, SameResult Eq e.bare.integer e.integer
  | const span _ value => literalInteger_same default span value
  | var .. | unit .. | call .. | array .. | index .. => .error rfl
  | group _ inner => integer_bare inner
  | signed span sign operand => by
    rw [bare, integer, integer]
    refine (integer_bare operand).bind ?_
    rintro n _ rfl
    cases sign with
    | positive => exact .ok rfl
    | negative =>
      dsimp only
      split
      · exact .ok rfl
      · exact .error rfl
  | binary span op left right => by
    rw [bare, integer, integer]
    refine (integer_bare left).bind ?_
    rintro m _ rfl
    refine (integer_bare right).bind ?_
    rintro n _ rfl
    exact integerOp_same op default span m n

end Expr

namespace UnitTable

variable {t : UnitTable}

theorem orOverflow_same (span span' : Span) (p? : Option UnitProduct) :
    SameResult Eq (orOverflow span p?) (orOverflow span' p?) := by
  cases p? with
  | none => exact .error rfl
  | some p => exact .ok rfl

theorem single_same (t : UnitTable) (span span' : Span) (name : String) :
    SameResult Eq (t.single span name) (t.single span' name) := by
  unfold single
  split
  · exact .ok rfl
  · exact .error rfl

/-- The units that a tree says do not depend on its places. -/
theorem product_bare : ∀ e : Expr, SameResult Eq (t.product e.bare) (t.product e)
  | .const span literal value => by
    have hinteger := Expr.integer_bare (.const span literal value)
    rw [Expr.bare] at hinteger ⊢
    rw [product, product]
    generalize (Expr.const default literal value).integer = r at hinteger ⊢
    generalize (Expr.const span literal value).integer = r' at hinteger ⊢
    cases hinteger with
    | error => exact .error rfl
    | ok h =>
      subst h
      split
      · exact .ok rfl
      · exact .error rfl
  | .var span name _ => by
    rw [Expr.bare, product, product]
    split
    · exact .ok rfl
    · exact single_same t default span name.text
  | .unit span text => single_same t default span text
  | .group _ inner => product_bare inner
  | .call .. | .array .. | .index .. | .signed .. => .error rfl
  | .binary span .exp left right => by
    rw [Expr.bare, product, product]
    refine (Expr.integer_bare right).bind ?_
    rintro n _ rfl
    refine (product_bare left).bind ?_
    rintro p _ rfl
    exact orOverflow_same default span _
  | .binary span .mul left right => by
    rw [Expr.bare, product, product]
    refine (product_bare left).bind ?_
    rintro p _ rfl
    refine (product_bare right).bind ?_
    rintro q _ rfl
    exact orOverflow_same default span _
  | .binary span .div left right => by
    have hinteger := Expr.integer_bare left
    rw [Expr.bare, product, product]
    generalize left.bare.integer = r at hinteger ⊢
    generalize left.integer = r' at hinteger ⊢
    cases hinteger with
    | ok h =>
      subst h
      dsimp only
      split
      · refine (product_bare right).bind ?_
        rintro q _ rfl
        exact orOverflow_same default span _
      · exact .error rfl
    | error =>
      refine (product_bare left).bind ?_
      rintro p _ rfl
      refine (product_bare right).bind ?_
      rintro q _ rfl
      exact orOverflow_same default span _
  | .binary _ .add .. | .binary _ .sub .. => .error rfl

/-- Spaces behind commands change nothing in the units. -/
theorem parse_plain_same {text text' : String}
    (h : Squeezed (UnitText.plain text.toList) (UnitText.plain text'.toList)) :
    SameResult Eq (t.parse text) (t.parse text') := by
  have hread := @Expr.parse_same (Scope.empty .units)
    (String.ofList (UnitText.plain text.toList)) (String.ofList (UnitText.plain text'.toList)) (by
      rw [tokens, scan, tokens, scan, String.toList_ofList, String.toList_ofList]
      exact Scan.tokensFrom_squeezed rfl h 0 0 0)
  rw [parse, parse]
  refine hread.bind ?_
  intro e? e?' he
  rcases e? with _ | e <;> rcases e?' with _ | e'
  · exact .ok rfl
  · cases he
  · cases he
  · have hbare : e.bare = e'.bare := Option.some.inj he
    have hproduct := product_bare (t := t) e'
    rw [← hbare] at hproduct
    exact (product_bare e).symm.trans hproduct

end UnitTable

end Worksheet
