import Mathlib.Algebra.Order.BigOperators.Group.List
import Mathlib.Algebra.Order.Group.Nat
import Worksheet.Proofs.Markup
import Worksheet.Proofs.Statement.Divide
import Worksheet.Proofs.Text.Blank
import Worksheet.Proofs.Token.Faults
/-!
# Faults of statements

A text that is no statement is at fault itself, at a place in it. The parts of a statement lie in
its text.
-/

namespace Worksheet

open Text

/-- The part ends after so many bytes or before. -/
def Fragment.Within (size : Nat) (f : Fragment) : Prop :=
  f.offset + byteSize f.text.toList ≤ size

theorem Fragment.Within.trimmed {size : Nat} {f : Fragment} (h : f.Within size) :
    f.trimmedOffset + byteSize (trim f.text.toList) ≤ size := by
  have htrim := byteSize_trim_le f.text.toList
  unfold Fragment.Within at h
  unfold Fragment.trimmedOffset
  omega

theorem Fragment.Within.span {size : Nat} {f : Fragment} (h : f.Within size) :
    f.span.Within 0 size :=
  Span.within_ofBytes (Nat.zero_le _) (Nat.le_add_right _ _) h.trimmed

namespace Statement

/-- All that messages can point at ends after so many bytes or before. -/
def Within (size : Nat) : Statement → Prop
  | definition _ _ spans body => (∀ s ∈ spans, s.Within 0 size) ∧ body.Within size
  | assignment name expr _ => name.Within size ∧ expr.Within size
  | display expr _ => expr.Within size

theorem Within.mono {small size : Nat} {st : Statement} (h : st.Within small)
    (hsize : small ≤ size) : st.Within size := by
  cases st with
  | definition name params spans body =>
    exact ⟨fun s hs => (h.1 s hs).mono (Nat.le_refl 0) hsize, Nat.le_trans h.2 hsize⟩
  | assignment name expr display => exact ⟨Nat.le_trans h.1 hsize, Nat.le_trans h.2 hsize⟩
  | display expr display => exact Nat.le_trans h hsize

/-- An error tells of the statement, at a place in its `size` bytes. -/
def Misplaced (size : Nat) (e : Error) : Prop := e.code.External ∧ e.span.Within 0 size

variable {size : Nat}

theorem misplaced_at {code : ErrorCode} {details : Option String} {a b : Nat}
    (hcode : code.External) (h : a ≤ b) (hb : b ≤ size) :
    Misplaced size ⟨code, Span.ofBytes a b, details⟩ :=
  ⟨hcode, Span.within_ofBytes (Nat.zero_le a) h hb⟩

/-! ## Heads of functions -/

/-- The size of the parts with the commas between them. -/
theorem byteSize_intercalate_cons (part next : List Char) (parts : List (List Char)) :
    byteSize ([','].intercalate (part :: next :: parts)) =
      byteSize part + 1 + byteSize ([','].intercalate (next :: parts)) := by
  have hcomma : (',' : Char).utf8Size = 1 := rfl
  simp only [List.intercalate, List.intersperse_cons_cons, List.flatten_cons, byteSize_append,
    byteSize_cons, byteSize_nil, hcomma]
  omega

theorem parameters_meets (parts : List (List Char)) (start : Nat) (earlier : List Name)
    (h : parts = [] ∨ start + byteSize ([','].intercalate parts) ≤ size) :
    Meets (Misplaced size) (fun params => ∀ p ∈ params, p.2.Within 0 size)
      (parameters start earlier parts) := by
  induction parts generalizing start earlier with
  | nil => exact .ok nofun
  | cons part parts ih =>
    have htrim := byteSize_trim_le part
    have hpart : start + byteSize part ≤ size ∧
        (parts = [] ∨ start + byteSize part + 1 + byteSize ([','].intercalate parts) ≤ size) := by
      have hsize := h.resolve_left (List.cons_ne_nil _ _)
      cases parts with
      | nil =>
        simp only [List.intercalate, List.intersperse_singleton, List.flatten_cons,
          List.flatten_nil, List.append_nil] at hsize
        exact ⟨hsize, .inl rfl⟩
      | cons next parts =>
        rw [byteSize_intercalate_cons] at hsize
        exact ⟨by omega, .inr (by omega)⟩
    unfold parameters
    dsimp only
    split
    · exact .error (misplaced_at nofun (Nat.le_add_right _ _) hpart.1)
    · split
      · exact .error (misplaced_at nofun (Nat.le_add_right _ _) hpart.1)
      · apply (ih _ _ hpart.2).bind
        intro others hothers
        refine .ok (List.forall_mem_cons.2 ⟨?_, hothers⟩)
        exact Span.within_ofBytes (Nat.zero_le _) (Nat.le_add_right _ _) (by omega)

theorem functionHead?_meets {name : Fragment} (h : name.Within size) :
    Meets (Misplaced size)
      (fun head? => ∀ head ∈ head?, head.1.Within size ∧ ∀ p ∈ head.2, p.2.Within 0 size)
      (functionHead? name) := by
  have htrimmed := h.trimmed
  have hsplit : byteSize ((trim name.text.toList).takeWhile (· != '(')) +
      byteSize ((trim name.text.toList).dropWhile (· != '(')) =
        byteSize (trim name.text.toList) := by
    rw [← byteSize_append, List.takeWhile_append_dropWhile]
  unfold functionHead?
  dsimp only
  split
  · rename_i rest hrest
    have hparen : ('(' : Char).utf8Size = 1 := rfl
    rw [hrest, byteSize_cons, hparen] at hsplit
    split
    · split
      · exact .error (misplaced_at nofun (Nat.le_add_right _ _) (by omega))
      · have hlast : byteSize rest.dropLast ≤ byteSize rest :=
          byteSize_le_of_prefix (List.dropLast_prefix rest)
        refine (parameters_meets _ _ _ (.inr ?_)).bind fun params hparams => .ok ?_
        · rw [List.intercalate_splitOn]
          omega
        · rintro _ ⟨⟩
          refine ⟨?_, hparams⟩
          simp only [Fragment.Within, String.toList_ofList]
          omega
    · exact .ok nofun
  · exact .ok nofun

/-! ## Statements -/

theorem assigned_meets {lead : String} {name expr : Fragment} {display : Option Display}
    {displayAt : Nat} (hname : name.Within size) (hexpr : expr.Within size)
    (hdisplay : display.isSome → displayAt + 2 ≤ size) :
    Meets (Misplaced size) (fun parsed => parsed.statement.Within size)
      (assigned lead name expr display displayAt) := by
  apply (functionHead?_meets hname).bind
  intro head? hhead
  split
  · rename_i head params
    split
    · rename_i hsome
      exact .error (misplaced_at nofun (Nat.le_add_right _ _) (hdisplay hsome))
    · refine .ok ⟨?_, hexpr⟩
      rw [List.forall_mem_map]
      exact (hhead _ rfl).2
  · split
    · exact .error ⟨nofun, hname.span⟩
    · exact .ok ⟨hname, hexpr⟩

theorem byteSize_operator (operator : Operator) : byteSize operator.text.toList = 2 := by
  cases operator <;> rfl

theorem byteSize_joined (first : List Char) (others : List (Operator × List Char)) :
    byteSize (joined first others) =
      byteSize first + (others.map fun other => 2 + byteSize other.2).sum := by
  induction others generalizing first with
  | nil => simp
  | cons other others ih =>
    obtain ⟨operator, part⟩ := other
    rw [joined_cons, byteSize_append, byteSize_append, ih, byteSize_operator, List.map_cons,
      List.sum_cons, Nat.add_assoc, Nat.add_assoc]

theorem byteSize_last_le (others : List (Operator × List Char)) :
    (others.getLast?.map fun other => byteSize other.2).getD 0 ≤
      (others.map fun other => 2 + byteSize other.2).sum := by
  cases hlast : others.getLast? with
  | none => exact Nat.zero_le _
  | some other =>
    calc byteSize other.2 ≤ 2 + byteSize other.2 := Nat.le_add_left _ _
      _ ≤ (others.map fun other => 2 + byteSize other.2).sum :=
        List.le_sum_of_mem (List.mem_map.2 ⟨other, List.mem_of_getLast? hlast, rfl⟩)

/-- The parts lie behind one another in the statement, each behind its operator of two bytes. -/
theorem ofParts_meets {body : List Char} {markup : Option (List Char)} {first : List Char}
    {others : List (Operator × List Char)} (h : joined first others = body) :
    Meets (Misplaced (byteSize body)) (fun parsed => parsed.statement.Within (byteSize body))
      (ofParts body markup (first, others)) := by
  have hsize := byteSize_joined first others
  rw [h] at hsize
  have hfirst : Fragment.Within (byteSize body) ⟨String.ofList first, 0⟩ := by
    simp only [Fragment.Within, String.toList_ofList]
    omega
  have hsecond : ∀ operator part more, others = (operator, part) :: more →
      Fragment.Within (byteSize body) ⟨String.ofList part, byteSize first + 2⟩ := by
    rintro operator part more rfl
    simp only [List.map_cons, List.sum_cons] at hsize
    simp only [Fragment.Within, String.toList_ofList]
    omega
  unfold ofParts
  split
  · exact .error (misplaced_at nofun (Nat.zero_le _) (Nat.le_refl _))
  · rename_i hparts
    cases hparts
    exact assigned_meets hfirst (hsecond _ _ _ rfl) nofun
  · rename_i hparts
    cases hparts
    exact .ok hfirst
  · rename_i first' expr operator tail hparts
    cases hparts
    simp only [List.map_cons, List.map_nil, List.sum_cons, List.sum_nil] at hsize
    dsimp only
    split
    · exact .error (misplaced_at nofun (Nat.le_add_right _ _) (by omega))
    · exact assigned_meets hfirst (hsecond _ _ _ rfl) fun _ => by omega
  · rename_i more _ _ _ hparts
    cases hparts
    have hlast := byteSize_last_le more
    simp only [List.map_cons, List.sum_cons] at hsize
    exact .error (misplaced_at nofun (Nat.le_add_right _ _) (by omega))

/-- The parts of a statement lie in its text, and so does what is wrong with a text that is none. -/
theorem parse_meets (text : String) :
    Meets (Misplaced (byteSize text.toList))
      (fun parsed => parsed.statement.Within (byteSize text.toList)) (parse text) := by
  have hbody : byteSize (trimEnd (Markup.split text.toList).1) ≤ byteSize text.toList :=
    byteSize_le_of_prefix ((trimEnd_isPrefix _).trans (Markup.split_isPrefix _))
  have hjoined := joined_divide 0 (trimEnd (Markup.split text.toList).1)
  exact (ofParts_meets hjoined).imp (fun e he => ⟨he.1, he.2.mono (Nat.le_refl 0) hbody⟩)
    fun parsed hparsed => hparsed.mono hbody

end Statement

end Worksheet
