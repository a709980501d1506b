import Worksheet.Proofs.Text.Group
import Worksheet.Statement.Basic
/-!
# Dividing statements

The parts of a statement and the operators between them are the statement. What stands behind an
operator has no influence on what stands before it.
-/

namespace Worksheet.Statement

open Text

/-- Parts with the operators between them. -/
def joined (first : List Char) (others : List (Operator × List Char)) : List Char :=
  first ++ others.flatMap fun other => other.1.text.toList ++ other.2

@[simp] theorem joined_nil (first : List Char) : joined first [] = first := by
  simp [joined]

theorem joined_cons (first : List Char) (operator : Operator) (part : List Char)
    (others : List (Operator × List Char)) :
    joined first ((operator, part) :: others) =
      first ++ operator.text.toList ++ joined part others := by
  simp [joined]

theorem joined_append (first : List Char) (others more : List (Operator × List Char)) :
    joined first (others ++ more) = joined (joined first others) more := by
  simp [joined]

theorem operator?_eq_some {c d : Char} {operator : Operator} (h : operator? c d = some operator) :
    operator.text.toList = [c, d] := by
  unfold operator? at h
  split at h
  · rename_i hcd
    cases h
    simp_all [Operator.text]
  · split at h
    · rename_i hcd
      cases h
      simp_all [Operator.text]
    · split at h
      · rename_i hcd
        cases h
        simp_all [Operator.text]
      · cases h

theorem operator?_text (operator : Operator) :
    ∃ c d, operator.text.toList = [c, d] ∧ c ≠ '\\' ∧ operator? c d = some operator := by
  cases operator
  · exact ⟨':', '=', rfl, by decide, rfl⟩
  · exact ⟨'=', '=', rfl, by decide, rfl⟩
  · exact ⟨'=', '>', rfl, by decide, rfl⟩

section

variable {depth : Int} {c d : Char} {cs : List Char}

theorem divide_escape (depth : Int) (d : Char) (cs : List Char) :
    divide depth ('\\' :: d :: cs) =
      ('\\' :: d :: (divide depth cs).1, (divide depth cs).2) := by
  rw [divide, if_pos rfl]

theorem divide_operator {operator : Operator} (hc : c ≠ '\\') (h : operator? c d = some operator)
    (cs : List Char) :
    divide 0 (c :: d :: cs) = ([], (operator, (divide 0 cs).1) :: (divide 0 cs).2) := by
  rw [divide, if_neg hc, if_pos rfl, h]

theorem divide_other (hc : c ≠ '\\') (h : depth ≠ 0 ∨ operator? c d = none) (cs : List Char) :
    divide depth (c :: d :: cs) =
      (c :: (divide (depth + nesting c) (d :: cs)).1,
        (divide (depth + nesting c) (d :: cs)).2) := by
  rw [divide, if_neg hc]
  have hnone : (if depth = 0 then operator? c d else none) = none := by
    rcases h with hdepth | hoperator
    · rw [if_neg hdepth]
    · rw [hoperator, ite_self]
  rw [hnone]

end

/-- How a text is divided, from its first characters on. -/
theorem divide_cases (motive : Int → List Char → Prop) (empty : ∀ depth, motive depth [])
    (single : ∀ depth c, motive depth [c])
    (escape : ∀ depth d cs, motive depth cs → motive depth ('\\' :: d :: cs))
    (operator : ∀ c d cs op, c ≠ '\\' → operator? c d = some op → motive 0 cs →
      motive 0 (c :: d :: cs))
    (other : ∀ depth c d cs, c ≠ '\\' → (depth ≠ 0 ∨ operator? c d = none) →
      motive (depth + nesting c) (d :: cs) → motive depth (c :: d :: cs))
    (depth : Int) (cs : List Char) : motive depth cs := by
  induction depth, cs using divide.induct with
  | case1 depth => exact empty depth
  | case2 depth c => exact single depth c
  | case3 depth d cs part others _ ih => exact escape depth d cs ih
  | case4 depth c d cs hc op hop part others _ ih =>
      by_cases hdepth : depth = 0
      · subst hdepth
        rw [if_pos rfl] at hop
        exact operator c d cs op hc hop ih
      · rw [if_neg hdepth] at hop
        cases hop
  | case5 depth c d cs hc hnone part others _ ih =>
      refine other depth c d cs hc ?_ ih
      by_cases hdepth : depth = 0
      · rw [if_pos hdepth] at hnone
        exact .inr hnone
      · exact .inl hdepth

theorem joined_divide (depth : Int) (cs : List Char) :
    joined (divide depth cs).1 (divide depth cs).2 = cs := by
  induction depth, cs using divide_cases with
  | empty depth => rfl
  | single depth c => rfl
  | escape depth d cs ih =>
      rw [divide_escape]
      exact congrArg (fun rest => '\\' :: d :: rest) ih
  | operator c d cs op hc hop ih =>
      rw [divide_operator hc hop, joined_cons, ih, operator?_eq_some hop]
      rfl
  | other depth c d cs hc hnone ih =>
      rw [divide_other hc hnone]
      exact congrArg (c :: ·) ih

/-! ## Texts without operators -/

/-- A character that no operator begins with is passed over. -/
theorem divide_cons {depth : Int} {c : Char} {cs : List Char} (hslash : c ≠ '\\')
    (h : depth ≠ 0 ∨ c ≠ '=' ∧ (c = ':' → Stops (· = '=') cs)) :
    divide depth (c :: cs) =
      (c :: (divide (depth + nesting c) cs).1, (divide (depth + nesting c) cs).2) := by
  cases cs with
  | nil => rfl
  | cons d cs =>
    refine divide_other hslash (h.imp_right fun ⟨hc, hcolon⟩ => ?_) cs
    have hassign : ¬(c = ':' ∧ d = '=') := fun ⟨hc, hd⟩ => by
      have hstops := stops_cons.1 (hcolon hc)
      rw [hd] at hstops
      cases hstops
    simp [operator?, hassign, hc]

theorem nesting_of_not_mem {c : Char} (hc : c ∉ delimiters) : nesting c = 0 := by
  simp only [delimiters, List.mem_cons, List.not_mem_nil, or_false, not_or] at hc
  simp [nesting, hc]

theorem nesting_brackets {opener closer : Char} (h : (opener, closer) ∈ brackets) :
    (opener ∉ ['\\', '=', ':'] ∧ nesting opener = 1) ∧
      closer ∉ ['\\', '=', ':'] ∧ nesting closer = -1 := by
  have hall : ∀ pair ∈ brackets, (pair.1 ∉ ['\\', '=', ':'] ∧ nesting pair.1 = 1) ∧
      pair.2 ∉ ['\\', '=', ':'] ∧ nesting pair.2 = -1 := by
    decide
  exact hall _ h

/-- A text without open groups belongs to one part of a statement. Inside of brackets it may be any,
and outside one without an equals sign. -/
theorem divide_closed {silent : Bool} {cs rest : List Char} (h : Closed silent cs) {depth : Int}
    (hdepth : 0 ≤ depth) (hsilent : depth = 0 → silent ∧ Stops (· = '=') rest) :
    divide depth (cs ++ rest) = (cs ++ (divide depth rest).1, (divide depth rest).2) := by
  induction h generalizing depth rest with
  | nil => rfl
  | @char silent c cs hc hequals others ih =>
    have hslash : c ≠ '\\' := fun heq => hc (heq ▸ by decide)
    have hpassed : depth ≠ 0 ∨ c ≠ '=' ∧ (c = ':' → Stops (· = '=') (cs ++ rest)) := by
      by_cases hzero : depth = 0
      · obtain ⟨rfl, hstops⟩ := hsilent hzero
        exact .inr ⟨hequals rfl, fun _ => others.stops_equals hstops⟩
      · exact .inl hzero
    rw [List.cons_append, divide_cons hslash hpassed, nesting_of_not_mem hc, Int.add_zero,
      ih hdepth hsilent]
    rfl
  | @command silent c cs hc _ ih =>
    change divide depth ('\\' :: c :: (cs ++ rest)) = _
    rw [divide_escape, ih hdepth hsilent]
    rfl
  | @row silent cs _ ih =>
    have hblank : depth ≠ 0 ∨ ' ' ≠ '=' ∧ (' ' = ':' → Stops (· = '=') (cs ++ rest)) :=
      .inr ⟨by decide, fun heq => absurd heq (by decide)⟩
    change divide depth ('\\' :: '\\' :: ' ' :: (cs ++ rest)) = _
    rw [divide_escape, divide_cons (by decide) hblank, nesting_of_not_mem (by decide), Int.add_zero,
      ih hdepth hsilent]
    rfl
  | @group silent opener closer inner cs hpair _ _ ihinner ih =>
    obtain ⟨⟨hopener, hdeeper⟩, hcloser, hback⟩ := nesting_brackets hpair
    simp only [List.mem_cons, List.not_mem_nil, or_false, not_or] at hopener hcloser
    have hinside : depth + 1 ≠ 0 := by omega
    have happend : opener :: (inner ++ closer :: cs) ++ rest =
        opener :: (inner ++ closer :: (cs ++ rest)) := by simp
    rw [happend, divide_cons hopener.1 (.inr ⟨hopener.2.1, fun heq => absurd heq hopener.2.2⟩),
      hdeeper, ihinner (by omega) fun hzero => absurd hzero hinside,
      divide_cons hcloser.1 (.inl hinside), hback, Int.add_neg_cancel_right, ih hdepth hsilent]
    simp

/-- Where a text is not divided, nothing that it begins with is. -/
theorem divide_of_isPrefix {depth : Int} {cs ds : List Char} (hbegins : cs <+: ds)
    (h : (divide depth ds).2 = []) : (divide depth cs).2 = [] := by
  obtain ⟨more, rfl⟩ := hbegins
  induction depth, cs using divide_cases with
  | empty depth => rfl
  | single depth c => rfl
  | escape depth d cs ih =>
    rw [List.cons_append, List.cons_append, divide_escape] at h
    rw [divide_escape]
    exact ih h
  | operator c d cs op hc hop ih =>
    rw [List.cons_append, List.cons_append, divide_operator hc hop] at h
    cases h
  | other depth c d cs hc hnone ih =>
    rw [List.cons_append, List.cons_append, divide_other hc hnone] at h
    rw [divide_other hc hnone]
    exact ih h

/-! ## Behind the last operator -/

/-- Whatever comes behind the last operator is divided by itself. -/
theorem divide_behind {depth : Int} {cs first : List Char} {others : List (Operator × List Char)}
    {operator : Operator} {tail : List Char}
    (h : divide depth cs = (first, others ++ [(operator, tail)])) (rest : List Char) :
    divide depth (joined first others ++ operator.text.toList ++ rest) =
      (first, others ++ (operator, (divide 0 rest).1) :: (divide 0 rest).2) := by
  induction depth, cs using divide_cases generalizing first others with
  | empty depth => simp [divide] at h
  | single depth c => simp [divide] at h
  | escape depth d cs ih =>
      rw [divide_escape, Prod.mk.injEq] at h
      obtain ⟨rfl, hothers⟩ := h
      have hrest := ih (Prod.ext rfl hothers)
      change divide depth ('\\' :: d :: (joined (divide depth cs).1 others ++
        operator.text.toList ++ rest)) = _
      rw [divide_escape, hrest]
  | operator c d cs op hc hop ih =>
      rw [divide_operator hc hop, Prod.mk.injEq] at h
      obtain ⟨rfl, hothers⟩ := h
      have htext := operator?_eq_some hop
      cases others with
      | nil =>
          rw [List.nil_append, List.cons.injEq, Prod.mk.injEq] at hothers
          rw [joined_nil, List.nil_append, ← hothers.1.1, htext]
          exact divide_operator hc hop rest
      | cons other others =>
          rw [List.cons_append, List.cons.injEq] at hothers
          obtain ⟨rfl, hothers⟩ := hothers
          have hrest := ih (Prod.ext rfl hothers)
          rw [joined_cons, htext]
          change divide 0 (c :: d :: (joined (divide 0 cs).1 others ++
            operator.text.toList ++ rest)) = _
          rw [divide_operator hc hop, hrest]
          rfl
  | other depth c d cs hc hnone ih =>
      rw [divide_other hc hnone, Prod.mk.injEq] at h
      obtain ⟨rfl, hothers⟩ := h
      have hrest := ih (Prod.ext rfl hothers)
      -- the text up to the last operator begins with the same character as what was divided
      have hwhole := joined_divide (depth + nesting c) (d :: cs)
      rw [hothers, joined_append, joined_cons, joined_nil] at hwhole
      change divide depth (c :: (joined (divide (depth + nesting c) (d :: cs)).1 others ++
        operator.text.toList ++ rest)) = _
      cases hfront : joined (divide (depth + nesting c) (d :: cs)).1 others ++
          operator.text.toList with
      | nil =>
          obtain ⟨a, b, htext, -, -⟩ := operator?_text operator
          rw [htext] at hfront
          simp at hfront
      | cons d' front =>
          rw [hfront, List.cons_append, List.cons.injEq] at hwhole
          rw [hfront, hwhole.1, List.cons_append] at hrest
          rw [hwhole.1, List.cons_append, divide_other hc hnone, hrest]

end Worksheet.Statement
