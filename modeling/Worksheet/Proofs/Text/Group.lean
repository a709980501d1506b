import Worksheet.Proofs.Text.Search
import Worksheet.Text.Group
/-!
# Texts without open groups

A text in which every bracket has its partner. Whoever counts brackets is behind it as deep as
before it.
-/

namespace Worksheet.Text

/-- The brackets, and the backslash that takes their meaning away. -/
def delimiters : List Char := ['\\', '\x7b', '\x7d', '(', ')', '[', ']']

def brackets : List (Char × Char) := [('\x7b', '\x7d'), ('(', ')'), ('[', ']')]

/-- Every bracket has its partner. A backslash stands before a command or a sign, or before another
one that ends a row. In a silent text no equals sign is outside of the brackets. -/
inductive Closed : Bool → List Char → Prop where
  | nil {silent : Bool} : Closed silent []
  | char {silent : Bool} {c : Char} {cs : List Char} (hc : c ∉ delimiters)
      (hsilent : silent → c ≠ '=') (others : Closed silent cs) : Closed silent (c :: cs)
  | command {silent : Bool} {c : Char} {cs : List Char} (hc : c ∉ ['q', '\\'])
      (others : Closed silent cs) : Closed silent ('\\' :: c :: cs)
  | row {silent : Bool} {cs : List Char} (others : Closed silent cs) :
      Closed silent ('\\' :: '\\' :: ' ' :: cs)
  | group {silent : Bool} {opener closer : Char} {inner cs : List Char}
      (hpair : (opener, closer) ∈ brackets) (hinner : Closed false inner)
      (others : Closed silent cs) : Closed silent (opener :: (inner ++ closer :: cs))

variable {silent : Bool} {cs ds rest : List Char}

theorem Closed.append (h : Closed silent cs) (h' : Closed silent ds) :
    Closed silent (cs ++ ds) := by
  induction h with
  | nil => exact h'
  | char hc hsilent _ ih => exact .char hc hsilent (ih h')
  | command hc _ ih => exact .command hc (ih h')
  | row _ ih => exact .row (ih h')
  | @group silent opener closer inner cs hpair hinner _ _ ih =>
    have happend : opener :: (inner ++ closer :: cs) ++ ds =
        opener :: (inner ++ closer :: (cs ++ ds)) := by simp
    rw [happend]
    exact .group hpair hinner (ih h')

theorem closed_of_chars (h : ∀ c ∈ cs, c ∉ delimiters ∧ (silent → c ≠ '=')) :
    Closed silent cs := by
  induction cs with
  | nil => exact .nil
  | cons c cs ih =>
    obtain ⟨hc, hcs⟩ := List.forall_mem_cons.1 h
    exact .char hc.1 hc.2 (ih hcs)

theorem closed_word (h : ∀ c ∈ cs, c ∉ '=' :: delimiters) : Closed silent cs := by
  refine closed_of_chars fun c hc => ?_
  have hnot := h c hc
  rw [List.mem_cons, not_or] at hnot
  exact ⟨hnot.2, fun _ => hnot.1⟩

theorem closed_command (hne : cs ≠ []) (h : ∀ c ∈ cs, c ∉ 'q' :: '=' :: delimiters) :
    Closed silent ('\\' :: cs) := by
  obtain ⟨c, cs, rfl⟩ := List.exists_cons_of_ne_nil hne
  obtain ⟨hc, hcs⟩ := List.forall_mem_cons.1 h
  have hfirst : ∀ c ∈ ['q', '\\'], c ∈ 'q' :: '=' :: delimiters := by decide
  exact .command (fun hmem => hc (hfirst c hmem))
    (closed_word fun d hd hmem => hcs d hd (List.mem_cons_of_mem _ hmem))

theorem closed_group {opener closer : Char} (hpair : (opener, closer) ∈ brackets)
    (h : Closed false cs) : Closed silent (opener :: (cs ++ [closer])) :=
  .group hpair h .nil

theorem closed_braces (h : Closed false cs) : Closed silent ('\x7b' :: (cs ++ ['\x7d'])) :=
  closed_group (by decide) h

/-! ## Groups around a text -/

theorem untilClosed_other {c : Char} {depth : Nat} (hslash : c ≠ '\\') (hopen : c ≠ '\x7b')
    (hclose : c ≠ '\x7d') (rest : List Char) :
    untilClosed depth (c :: rest) =
      (untilClosed depth rest).map fun (body, after) => (c :: body, after) := by
  rw [untilClosed]
  all_goals simp_all

/-- Braces make groups, and the other brackets are like any character there. -/
theorem bracket_cases {opener closer : Char} (h : (opener, closer) ∈ brackets) :
    opener = '\x7b' ∧ closer = '\x7d' ∨
      (opener ∉ ['\\', '\x7b', '\x7d', '=']) ∧ closer ∉ ['\\', '\x7b', '\x7d', '='] := by
  have hall : ∀ pair ∈ brackets, pair.1 = '\x7b' ∧ pair.2 = '\x7d' ∨
      (pair.1 ∉ ['\\', '\x7b', '\x7d', '=']) ∧ pair.2 ∉ ['\\', '\x7b', '\x7d', '='] := by
    decide
  exact hall _ h

/-- A group does not end in a text without open groups. -/
theorem Closed.untilClosed_append (h : Closed silent cs) (depth : Nat) (rest : List Char) :
    untilClosed depth (cs ++ rest) =
      (untilClosed depth rest).map fun (body, after) => (cs ++ body, after) := by
  induction h generalizing depth rest with
  | nil => simp
  | @char silent c cs hc hsilent _ ih =>
    simp only [delimiters, List.mem_cons, not_or] at hc
    rw [List.cons_append, untilClosed_other hc.1 hc.2.1 hc.2.2.1, ih, Option.map_map]
    rfl
  | @command silent c cs hc _ ih =>
    change untilClosed depth ('\\' :: c :: (cs ++ rest)) = _
    rw [untilClosed, ih, Option.map_map]
    rfl
  | @row silent cs _ ih =>
    change untilClosed depth ('\\' :: '\\' :: ' ' :: (cs ++ rest)) = _
    rw [untilClosed, untilClosed_other (by decide) (by decide) (by decide), ih, Option.map_map,
      Option.map_map]
    rfl
  | @group silent opener closer inner cs hpair _ _ ihinner ih =>
    have happend : opener :: (inner ++ closer :: cs) ++ rest =
        opener :: (inner ++ closer :: (cs ++ rest)) := by simp
    rw [happend]
    rcases bracket_cases hpair with ⟨rfl, rfl⟩ | ⟨hopener, hcloser⟩
    · rw [untilClosed, ihinner, untilClosed, ih, Option.map_map, Option.map_map, Option.map_map]
      congr 1
      funext ⟨body, after⟩
      simp
    · simp only [List.mem_cons, not_or] at hopener hcloser
      rw [untilClosed_other hopener.1 hopener.2.1 hopener.2.2.1, ihinner,
        untilClosed_other hcloser.1 hcloser.2.1 hcloser.2.2.1, ih, Option.map_map, Option.map_map,
        Option.map_map]
      congr 1
      funext ⟨body, after⟩
      simp

theorem Closed.untilClosed (h : Closed silent cs) (rest : List Char) :
    untilClosed 0 (cs ++ '\x7d' :: rest) = some (cs, rest) := by
  rw [h.untilClosed_append]
  simp [Text.untilClosed]

/-- A group ends with the first brace that matches its own. -/
theorem append_of_untilClosed {depth : Nat} {body : List Char}
    (h : Text.untilClosed depth cs = some (body, rest)) : body ++ '\x7d' :: rest = cs := by
  fun_induction Text.untilClosed depth cs generalizing body with
  | case1 | case2 => cases h
  | case5 =>
    cases h
    rfl
  | case3 depth c cs ih | case4 depth cs ih | case6 depth cs ih | case7 depth c cs _ _ _ _ ih =>
    obtain ⟨⟨body', rest'⟩, hbody, heq⟩ := Option.map_eq_some_iff.1 h
    cases heq
    simp [ih hbody]

/-- What is behind a group does not count for it. -/
theorem untilClosed_body {depth : Nat} {cs body rest : List Char}
    (h : untilClosed depth cs = some (body, rest)) (rest' : List Char) :
    untilClosed depth (body ++ '\x7d' :: rest') = some (body, rest') := by
  fun_induction untilClosed depth cs generalizing body with
  | case1 | case2 => cases h
  | case5 =>
    cases h
    rfl
  | case3 depth c cs ih =>
    obtain ⟨⟨body', rest''⟩, hbody, heq⟩ := Option.map_eq_some_iff.1 h
    cases heq
    change untilClosed depth ('\\' :: c :: (body' ++ '\x7d' :: rest')) = _
    rw [untilClosed, ih hbody]
    rfl
  | case4 depth cs ih =>
    obtain ⟨⟨body', rest''⟩, hbody, heq⟩ := Option.map_eq_some_iff.1 h
    cases heq
    change untilClosed depth ('\x7b' :: (body' ++ '\x7d' :: rest')) = _
    rw [untilClosed, ih hbody]
    rfl
  | case6 depth cs ih =>
    obtain ⟨⟨body', rest''⟩, hbody, heq⟩ := Option.map_eq_some_iff.1 h
    cases heq
    change untilClosed (depth + 1) ('\x7d' :: (body' ++ '\x7d' :: rest')) = _
    rw [untilClosed, ih hbody]
    rfl
  | case7 depth c cs hslash hopen hclose hclose' ih =>
    obtain ⟨⟨body', rest''⟩, hbody, heq⟩ := Option.map_eq_some_iff.1 h
    cases heq
    have hne : c ≠ '\x7d' := by
      cases depth with
      | zero => exact hclose rfl
      | succ depth => exact hclose' depth rfl
    change untilClosed depth (c :: (body' ++ '\x7d' :: rest')) = _
    rw [untilClosed_other hslash hopen hne, ih hbody]
    rfl

/-- With braces around it, the text is one group. -/
def Grouped (cs : List Char) : Prop := group? ('\x7b' :: (cs ++ ['\x7d'])) = some (cs, [])

instance (cs : List Char) : Decidable (Grouped cs) := inferInstanceAs (Decidable (_ = _))

/-- The group ends with its own brace, whatever stands behind it. -/
theorem Grouped.untilClosed (h : Grouped cs) (rest : List Char) :
    untilClosed 0 (cs ++ '\x7d' :: rest) = some (cs, rest) :=
  untilClosed_body h rest

/-- Characters that do not count for a group. -/
theorem untilClosed_append {xs : List Char} (h : ∀ c ∈ xs, c ∉ ['\\', '\x7b', '\x7d'])
    (depth : Nat) (rest : List Char) :
    untilClosed depth (xs ++ rest) =
      (untilClosed depth rest).map fun (body, after) => (xs ++ body, after) := by
  induction xs with
  | nil => simp
  | cons c xs ih =>
    obtain ⟨hc, hxs⟩ := List.forall_mem_cons.1 h
    simp only [List.mem_cons, List.not_mem_nil, or_false, not_or] at hc
    rw [List.cons_append, untilClosed_other hc.1 hc.2.1 hc.2.2, ih hxs, Option.map_map]
    rfl

/-! ## What does not begin in a text -/

theorem Closed.stops_equals (h : Closed true cs) (hrest : Stops (· = '=') rest) :
    Stops (· = '=') (cs ++ rest) := by
  cases h with
  | nil => exact hrest
  | char _ hsilent _ => exact stops_cons.2 (by simpa using hsilent rfl)
  | command => exact stops_cons.2 (by decide)
  | row => exact stops_cons.2 (by decide)
  | group hpair =>
    rcases bracket_cases hpair with ⟨rfl, -⟩ | ⟨hopener, -⟩
    · exact stops_cons.2 (by decide)
    · refine stops_cons.2 (decide_eq_false ?_)
      rintro rfl
      exact hopener (by decide)

theorem infix_of_ne {c d : Char} (hc : c ≠ '\\') (h : ['\\', d] <:+: c :: cs) :
    ['\\', d] <:+: cs := by
  rcases List.infix_cons_iff.1 h with hbegins | hinside
  · exact absurd (List.cons_prefix_cons.1 hbegins).1.symm hc
  · exact hinside

/-- No command that begins with a `q` is in a text without open groups, nor does one run out of
it. -/
theorem Closed.infix_append (h : Closed silent cs) (hinside : ['\\', 'q'] <:+: cs ++ rest) :
    ['\\', 'q'] <:+: rest := by
  induction h generalizing rest with
  | nil => exact hinside
  | char hc hsilent _ ih =>
    simp only [delimiters, List.mem_cons, not_or] at hc
    exact ih (infix_of_ne hc.1 hinside)
  | @command silent c cs hc _ ih =>
    simp only [List.mem_cons, List.not_mem_nil, or_false, not_or] at hc
    rcases List.infix_cons_iff.1 hinside with hbegins | hinside
    · have hq := List.cons_prefix_cons.1 (List.cons_prefix_cons.1 hbegins).2
      exact absurd hq.1.symm hc.1
    · exact ih (infix_of_ne hc.2 hinside)
  | row _ ih =>
    rcases List.infix_cons_iff.1 hinside with hbegins | hinside
    · have hq := List.cons_prefix_cons.1 (List.cons_prefix_cons.1 hbegins).2
      exact absurd hq.1 (by decide)
    rcases List.infix_cons_iff.1 hinside with hbegins | hinside
    · have hq := List.cons_prefix_cons.1 (List.cons_prefix_cons.1 hbegins).2
      exact absurd hq.1 (by decide)
    · exact ih (infix_of_ne (by decide) hinside)
  | @group silent opener closer inner cs hpair _ _ ihinner ih =>
    have hne : opener ≠ '\\' ∧ closer ≠ '\\' := by
      rcases bracket_cases hpair with ⟨rfl, rfl⟩ | ⟨hopener, hcloser⟩
      · decide
      · simp only [List.mem_cons, not_or] at hopener hcloser
        exact ⟨hopener.1, hcloser.1⟩
    rw [List.cons_append, List.append_assoc] at hinside
    exact ih (infix_of_ne hne.2 (ihinner (infix_of_ne hne.1 hinside)))

end Worksheet.Text
