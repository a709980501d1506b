import Worksheet.Proofs.Statement.Faults
import Worksheet.Proofs.Statement.Names
import Worksheet.Proofs.Text.Slice
/-!
# Parts of statements

The parts of a statement are slices of its text. They stand one behind the other, with the operators
between them, and the names of the parameters stand between the name of the function and the first
operator.
-/

namespace Worksheet

open Text

/-- Where the part ends. -/
def Fragment.stop (f : Fragment) : Nat := f.offset + f.text.utf8ByteSize

theorem Fragment.stop_ofList (part : List Char) (start : Nat) :
    (⟨String.ofList part, start⟩ : Fragment).stop = start + byteSize part :=
  congrArg (start + ·) (utf8ByteSize_ofList part)

/-- The part is a slice of the text, with the blanks around it and without them. -/
structure Fragment.Sliced (text : String) (f : Fragment) : Prop where
  whole : Slice text f.offset f.text
  trimmed : Slice text f.trimmedOffset f.trimmed

theorem Fragment.Sliced.of_partAt {text : String} {f : Fragment}
    (h : PartAt text.toList f.offset f.text.toList) : f.Sliced text where
  whole := h.slice
  trimmed := by
    have htrim := h.trim
    rw [← String.toList_ofList (l := trim f.text.toList)] at htrim
    exact htrim.slice

namespace Statement

/-- A parameter is spelled at its span, which lies between two bytes of the text. -/
structure Spells (text : String) (lo hi : Nat) (param : Name) (span : Span) : Prop where
  begins : lo ≤ span.start
  ends : span.stop ≤ hi
  spelling : ∃ spelling, Slice text span.start spelling ∧
    span.stop = span.start + spelling.utf8ByteSize ∧ Name.ofSpelling spelling = param

/-- The operator asks for such a display. -/
def Operator.Shows : Operator → Display → Prop
  | raw, .raw => True
  | convert, .convert _ => True
  | _, _ => False

theorem shows_displayOf {operator : Operator} (h : operator ≠ .assign) (tail : List Char)
    (markup : Option (List Char)) : operator.Shows (displayOf operator tail markup) := by
  cases operator with
  | assign => exact absurd rfl h
  | convert | raw => trivial

/-- The parts of a statement and its operators are slices of the text, one behind the other, and the
lead is what the text begins with, up to the last of them. Spans are exact as long as positions can
be held. -/
inductive Laid (text : String) : ParsedStatement → Prop where
  | definition {name body : Fragment} {params : List Name} {spans : List Span} {lead : String}
      {assignAt : Nat} (hlead : ∃ rest, text = lead ++ rest) (hname : name.Sliced text)
      (hbefore : name.stop ≤ assignAt) (hassign : Slice text assignAt Operator.assign.text)
      (hbehind : assignAt + 2 = body.offset) (hbody : body.Sliced text)
      (hends : body.stop = lead.utf8ByteSize)
      (hparams : text.utf8ByteSize ≤ lastPosition →
        List.Forall₂ (Spells text name.stop assignAt) params spans) :
      Laid text ⟨.definition name params spans body, lead⟩
  | assignment {name expr : Fragment} {lead : String} (hlead : ∃ rest, text = lead ++ rest)
      (hname : name.Sliced text) (hassign : Slice text name.stop Operator.assign.text)
      (hbehind : name.stop + 2 = expr.offset) (hexpr : expr.Sliced text)
      (hends : expr.stop = lead.utf8ByteSize) : Laid text ⟨.assignment name expr none, lead⟩
  | shownAssignment {name expr : Fragment} {display : Display} {lead : String}
      (operator : Operator) (hshows : operator.Shows display) (hlead : ∃ rest, text = lead ++ rest)
      (hname : name.Sliced text)
      (hassign : Slice text name.stop Operator.assign.text) (hbehind : name.stop + 2 = expr.offset)
      (hexpr : expr.Sliced text) (hdisplay : Slice text expr.stop operator.text)
      (hends : expr.stop + 2 = lead.utf8ByteSize) :
      Laid text ⟨.assignment name expr (some display), lead⟩
  | display {expr : Fragment} {display : Display} {lead : String} (operator : Operator)
      (hshows : operator.Shows display) (hlead : ∃ rest, text = lead ++ rest)
      (hexpr : expr.Sliced text)
      (hdisplay : Slice text expr.stop operator.text) (hends : expr.stop + 2 = lead.utf8ByteSize) :
      Laid text ⟨.display expr display, lead⟩

/-! ## Parameters -/

theorem pin_eq {position size : Nat} (h : position ≤ size) (hsize : size ≤ lastPosition) :
    pin position = position := Nat.min_eq_left (Nat.le_trans h hsize)

/-- The first of several parts stands where they do, and the others stand behind the comma. -/
theorem partAt_parts {cs part : List Char} {parts : List (List Char)} {start hi : Nat}
    (h : PartAt cs start ([','].intercalate (part :: parts)))
    (hhi : start + byteSize ([','].intercalate (part :: parts)) ≤ hi) :
    PartAt cs start part ∧ start + byteSize part ≤ hi ∧
      (parts = [] ∨ PartAt cs (start + byteSize part + 1) ([','].intercalate parts) ∧
        start + byteSize part + 1 + byteSize ([','].intercalate parts) ≤ hi) := by
  cases parts with
  | nil =>
    have hsingle : [','].intercalate [part] = part := by simp [List.intercalate]
    rw [hsingle] at h hhi
    exact ⟨h, hhi, .inl rfl⟩
  | cons next parts =>
    have hfirst : [','].intercalate (part :: next :: parts) =
        [] ++ part ++ (',' :: [','].intercalate (next :: parts)) := by
      simp [List.intercalate]
    have hothers : [','].intercalate (part :: next :: parts) =
        (part ++ [',']) ++ [','].intercalate (next :: parts) ++ [] := by
      simp [List.intercalate]
    have hcomma : byteSize (part ++ [',']) = byteSize part + 1 := byteSize_append part [',']
    have hbehind := partAt_append (part ++ [',']) ([','].intercalate (next :: parts)) []
    rw [← hothers, hcomma] at hbehind
    rw [byteSize_intercalate_cons] at hhi
    refine ⟨?_, by omega, .inr ⟨h.within hbehind, by omega⟩⟩
    rw [hfirst] at h
    exact h.within (partAt_append [] part _)

theorem parameters_spells {text : String} (hsize : byteSize text.toList ≤ lastPosition)
    {lo hi : Nat} (parts : List (List Char)) (start : Nat) (earlier : List Name) (hlo : lo ≤ start)
    (h : parts = [] ∨ PartAt text.toList start ([','].intercalate parts) ∧
      start + byteSize ([','].intercalate parts) ≤ hi) :
    Meets (fun _ => True) (fun params => ∀ p ∈ params, Spells text lo hi p.1 p.2)
      (parameters start earlier parts) := by
  induction parts generalizing start earlier with
  | nil => exact .ok nofun
  | cons part parts ih =>
    obtain ⟨hwhole, hhi⟩ := h.resolve_left (List.cons_ne_nil _ _)
    obtain ⟨hpart, hend, hothers⟩ := partAt_parts hwhole hhi
    have htrim := byteSize_trim_le part
    unfold parameters
    dsimp only
    split
    · exact .error trivial
    · split
      · exact .error trivial
      · apply (ih _ _ (by omega) hothers).bind
        intro others hspells
        refine .ok (List.forall_mem_cons.2 ⟨?_, hspells⟩)
        have hspelling := hpart.trim
        have hstop := hspelling.stop_le
        have hpinned := pin_eq (Nat.le_trans (Nat.le_add_right _ _) hstop) hsize
        have hpinned' := pin_eq hstop hsize
        refine ⟨?_, ?_, String.ofList (trim part), ?_, ?_, rfl⟩
        all_goals simp only [Span.ofBytes, hpinned, hpinned']
        · omega
        · omega
        · exact PartAt.slice (by rwa [String.toList_ofList])
        · rw [utf8ByteSize_ofList]

/-! ## Heads of functions -/

/-- The head of a function is in front of the parenthesis, and the parameters are behind it. -/
theorem partAt_head {text head inner : List Char} {start : Nat}
    (h : PartAt text start (head ++ '(' :: (inner ++ [')']))) :
    PartAt text start head ∧ PartAt text (start + byteSize head + 1) inner := by
  have hparen : byteSize (head ++ ['(']) = byteSize head + 1 := byteSize_append head ['(']
  have hbehind := partAt_append (head ++ ['(']) inner [')']
  rw [hparen, List.append_assoc, List.append_assoc] at hbehind
  exact ⟨h.within (partAt_of_isPrefix ⟨_, rfl⟩), h.within hbehind⟩

/-- The head of a function is sliced out of its name, and its parameters stand behind it. -/
structure HeadLaid (text : String) (name head : Fragment) (params : List (Name × Span)) : Prop where
  sliced : head.Sliced text
  ends : head.stop ≤ name.stop
  spells : text.utf8ByteSize ≤ lastPosition →
    ∀ p ∈ params, Spells text head.stop name.stop p.1 p.2

theorem functionHead?_laid {text : String} {name : Fragment}
    (h : PartAt text.toList name.offset name.text.toList) :
    Meets (fun _ => True) (fun head? => ∀ head ∈ head?, HeadLaid text name head.1 head.2)
      (functionHead? name) := by
  have htrim : PartAt text.toList name.trimmedOffset (trim name.text.toList) := h.trim
  have hstop : name.trimmedOffset + byteSize (trim name.text.toList) ≤ name.stop := by
    have hle := byteSize_trim_le name.text.toList
    rw [Fragment.stop, utf8ByteSize_eq]
    unfold Fragment.trimmedOffset
    omega
  have hsplit := List.takeWhile_append_dropWhile (p := (· != '(')) (l := trim name.text.toList)
  unfold functionHead?
  dsimp only
  generalize trim name.text.toList = spelled at htrim hstop hsplit ⊢
  generalize spelled.takeWhile (· != '(') = head at hsplit ⊢
  split
  · rename_i rest hrest
    split
    · rename_i hlast
      obtain ⟨inner, rfl⟩ := List.getLast?_eq_some_iff.1 hlast
      rw [hrest] at hsplit
      split
      · exact .error trivial
      · subst hsplit
        obtain ⟨hhead, hinner⟩ := partAt_head htrim
        have hends : name.trimmedOffset + byteSize head + 1 + byteSize inner ≤ name.stop := by
          rw [byteSize_append, byteSize_cons, byteSize_append] at hstop
          have hparen : Char.utf8Size '(' = 1 := by decide
          omega
        have hlist : [','].intercalate ((inner ++ [')']).dropLast.splitOn ',') = inner := by
          rw [List.dropLast_concat, List.intercalate_splitOn]
        have hspells : Meets (fun _ => True) (fun params => byteSize text.toList ≤ lastPosition →
            ∀ p ∈ params, Spells text (name.trimmedOffset + byteSize head) name.stop p.1 p.2)
            (parameters (name.trimmedOffset + byteSize head + 1) []
              ((inner ++ [')']).dropLast.splitOn ',')) := by
          by_cases hsize : byteSize text.toList ≤ lastPosition
          · refine (parameters_spells hsize _ _ _ (Nat.le_add_right _ 1) (.inr ?_)).imp
              (fun _ => id) fun _ hall _ => hall
            rw [hlist]
            exact ⟨hinner, hends⟩
          · exact (parameters_length _ _ _).imp (fun _ => id) fun _ _ hle => absurd hle hsize
        refine hspells.bind fun params hparams => .ok ?_
        rintro _ ⟨⟩
        refine ⟨Fragment.Sliced.of_partAt (by simpa using hhead), ?_, fun hsize => ?_⟩
        · change name.trimmedOffset + (String.ofList head).utf8ByteSize ≤ name.stop
          rw [utf8ByteSize_ofList]
          omega
        · change ∀ p ∈ params, Spells text
            (name.trimmedOffset + (String.ofList head).utf8ByteSize) name.stop p.1 p.2
          rw [utf8ByteSize_eq] at hsize
          rw [utf8ByteSize_ofList]
          exact hparams hsize
    · exact .ok nofun
  · exact .ok nofun

/-! ## Statements -/

/-- A statement with an assignment is laid out as its name, the operator, its expression and the
operator of the display. -/
theorem assigned_laid {text lead : String} {name expr : Fragment} {display : Option Display}
    {displayAt : Nat} (hlead : ∃ rest, text = lead ++ rest)
    (hname : PartAt text.toList name.offset name.text.toList)
    (hassign : Slice text name.stop Operator.assign.text) (hbehind : name.stop + 2 = expr.offset)
    (hexpr : PartAt text.toList expr.offset expr.text.toList)
    (hsilent : display = none → expr.stop = lead.utf8ByteSize)
    (hshown : ∀ shown, display = some shown → ∃ operator : Operator, operator.Shows shown ∧
      Slice text expr.stop operator.text ∧ expr.stop + 2 = lead.utf8ByteSize) :
    Meets (fun _ => True) (Laid text) (assigned lead name expr display displayAt) := by
  apply (functionHead?_laid hname).bind
  intro head? hhead
  split
  · rename_i head params
    have hlaid := hhead _ rfl
    split
    · exact .error trivial
    · rename_i hnone
      have hdisplay : display = none := by simpa using hnone
      refine .ok (.definition hlead hlaid.sliced hlaid.ends hassign hbehind (.of_partAt hexpr)
        (hsilent hdisplay) fun hsize => ?_)
      rw [List.forall₂_map_left_iff, List.forall₂_map_right_iff, List.forall₂_same]
      exact hlaid.spells hsize
  · split
    · exact .error trivial
    · cases display with
      | none =>
        exact .ok (.assignment hlead (.of_partAt hname) hassign hbehind (.of_partAt hexpr)
          (hsilent rfl))
      | some display =>
        obtain ⟨operator, hshows, hdisplay, hends⟩ := hshown display rfl
        exact .ok (.shownAssignment operator hshows hlead (.of_partAt hname) hassign hbehind
          (.of_partAt hexpr) hdisplay hends)

section

variable {text : String} {body first expr tail : List Char} {operator : Operator}

theorem exists_rest {lead : String} (hbody : body <+: text.toList) (hlead : lead.toList <+: body) :
    ∃ rest, text = lead ++ rest := by
  obtain ⟨rest, hrest⟩ := hlead.trans hbody
  refine ⟨String.ofList rest, ?_⟩
  rw [← String.toList_inj, String.toList_append, String.toList_ofList, hrest]

theorem partAt_of_body (hbody : body <+: text.toList) {start : Nat} {part : List Char}
    (h : PartAt body start part) : PartAt text.toList start part := by
  simpa using (partAt_of_isPrefix hbody).within h

/-- A part with an operator behind it is a slice, and so is the operator. -/
theorem partAt_operator (h : body = first ++ operator.text.toList ++ tail) :
    PartAt body 0 first ∧ PartAt body (byteSize first) operator.text.toList ∧
      PartAt body (byteSize first + 2) tail := by
  subst h
  have hsize : byteSize (first ++ operator.text.toList) = byteSize first + 2 := by
    rw [byteSize_append, byteSize_operator]
  have hbehind := partAt_append (first ++ operator.text.toList) tail []
  rw [List.append_nil, hsize] at hbehind
  exact ⟨partAt_of_isPrefix ⟨_, (List.append_assoc _ _ _).symm⟩, partAt_append _ _ _, hbehind⟩

theorem utf8ByteSize_append_operator (lead : String) (operator : Operator) :
    (lead ++ operator.text).utf8ByteSize = lead.utf8ByteSize + 2 := by
  rw [String.utf8ByteSize_append, utf8ByteSize_eq operator.text, byteSize_operator]

/-- The parts of a statement lie behind one another in it, each behind its operator. -/
theorem ofParts_laid {markup : Option (List Char)} {others : List (Operator × List Char)}
    (h : joined first others = body) (hbody : body <+: text.toList) :
    Meets (fun _ => True) (Laid text) (ofParts body markup (first, others)) := by
  have hslice : ∀ {start : Nat} {part : String}, PartAt body start part.toList →
      Slice text start part := fun hpart => (partAt_of_body hbody hpart).slice
  have hpart : ∀ {start : Nat} {part : List Char}, PartAt body start part →
      PartAt text.toList start (String.ofList part).toList := fun hpart => by
    rw [String.toList_ofList]
    exact partAt_of_body hbody hpart
  unfold ofParts
  split
  · exact .error trivial
  · -- a name and an expression
    rename_i expr hparts
    cases hparts
    rw [joined_cons, joined_nil] at h
    obtain ⟨hname, hassign, hexpr⟩ := partAt_operator h.symm
    refine assigned_laid (exists_rest hbody (by simp)) (hpart hname) (hslice ?_) ?_ (hpart hexpr)
      (fun _ => ?_) nofun
    · rwa [Fragment.stop_ofList, Nat.zero_add]
    · rw [Fragment.stop_ofList, Nat.zero_add]
    · rw [Fragment.stop_ofList, utf8ByteSize_ofList, ← h, byteSize_append, byteSize_append,
        byteSize_operator]
  · -- an expression that is shown
    rename_i operator tail hnot hparts
    cases hparts
    rw [joined_cons, joined_nil] at h
    obtain ⟨hexpr, hdisplay, -⟩ := partAt_operator h.symm
    refine .ok (.display operator (shows_displayOf hnot tail markup) (exists_rest hbody ?_)
      (.of_partAt (hpart hexpr)) (hslice ?_) ?_)
    · rw [← h]
      simp
    · rwa [Fragment.stop_ofList, Nat.zero_add]
    · rw [Fragment.stop_ofList, Nat.zero_add, utf8ByteSize_append_operator, utf8ByteSize_ofList]
  · -- a name and an expression that is shown
    rename_i expr operator tail hparts
    cases hparts
    dsimp only
    split
    · exact .error trivial
    · rename_i hnot
      rw [joined_cons, joined_cons, joined_nil] at h
      obtain ⟨hname, hassign, hrest⟩ := partAt_operator h.symm
      obtain ⟨hexpr, hdisplay, -⟩ :=
        partAt_operator (rfl : expr ++ operator.text.toList ++ tail = _)
      refine assigned_laid (exists_rest hbody ?_) (hpart hname) (hslice ?_) ?_
        (hpart (hrest.within hexpr)) nofun ?_
      · rw [← h]
        simp [Operator.text]
      · rwa [Fragment.stop_ofList, Nat.zero_add]
      · rw [Fragment.stop_ofList, Nat.zero_add]
      · rintro _ ⟨⟩
        refine ⟨operator, shows_displayOf hnot tail markup, hslice ?_, ?_⟩
        · rw [Fragment.stop_ofList]
          exact hrest.within hdisplay
        · have hassigned : (String.ofList first ++ ":=").utf8ByteSize = byteSize first + 2 := by
            rw [← utf8ByteSize_ofList]
            exact utf8ByteSize_append_operator (String.ofList first) .assign
          rw [Fragment.stop_ofList, utf8ByteSize_append_operator, String.utf8ByteSize_append,
            hassigned, utf8ByteSize_ofList]
  · exact .error trivial

end

/-- The parts of a statement, and the parameters of a function, are slices of its text in their
order, with the operators between them. -/
theorem parse_laid {text : String} {parsed : ParsedStatement} (h : parse text = .ok parsed) :
    Laid text parsed :=
  (ofParts_laid (joined_divide 0 _)
    ((trimEnd_isPrefix _).trans (Markup.split_isPrefix text.toList))).result h

/-- Parameters with blanks and braces, and characters of two bytes. -/
theorem parse_laid_parameters :
    let text := "µ( x_\x7b1\x7d , é ) := é x_1"
    let parsed : ParsedStatement := ⟨.definition ⟨"µ", 0⟩ [⟨"x_1"⟩, ⟨"é"⟩] [⟨4, 9⟩, ⟨12, 14⟩]
      ⟨" é x_1", 19⟩, text⟩
    parse text = .ok parsed ∧ Laid text parsed := by
  intro text parsed
  have hparse : parse text = .ok parsed := by decide +kernel
  exact ⟨hparse, parse_laid hparse⟩

end Statement

end Worksheet
