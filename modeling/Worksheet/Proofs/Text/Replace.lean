import Worksheet.Proofs.Text.Search
/-!
# Putting one text in the place of another

Where no occurrence lies across a border, the texts on both sides of it are rewritten on their own.
What takes the place of an occurrence makes no new one, as long as it has no character in common
with it.
-/

namespace Worksheet.Text

variable {needle replacement cs ds : List Char}

theorem replaceFrom_eq (needle replacement : List Char) (n : Nat) (cs : List Char) :
    replaceFrom needle replacement n cs = replace needle replacement (cs.drop n) := by
  induction cs generalizing n with
  | nil => cases n <;> rfl
  | cons c cs ih =>
    cases n with
    | zero => rfl
    | succ n => exact ih n

@[simp] theorem replace_nil (needle replacement : List Char) :
    replace needle replacement [] = [] := rfl

theorem replace_occurrence (hneedle : needle ≠ []) (replacement cs : List Char) :
    replace needle replacement (needle ++ cs) = replacement ++ replace needle replacement cs := by
  obtain ⟨d, ds, rfl⟩ := List.exists_cons_of_ne_nil hneedle
  have hbegins : (d :: ds).isPrefixOf (d :: (ds ++ cs)) :=
    List.isPrefixOf_iff_prefix.2 (List.prefix_append (d :: ds) cs)
  rw [List.cons_append, replace, replaceFrom, if_pos hbegins, replaceFrom_eq, List.length_cons,
    Nat.add_sub_cancel, List.drop_left]

theorem replace_cons_of_not_begins {c : Char} (h : ¬needle <+: c :: cs)
    (replacement : List Char) :
    replace needle replacement (c :: cs) = c :: replace needle replacement cs := by
  rw [← List.isPrefixOf_iff_prefix] at h
  exact if_neg h

/-- How a text is rewritten, from its first character on. -/
theorem replace_cases (hneedle : needle ≠ []) (motive : List Char → Prop) (empty : motive [])
    (occurrence : ∀ cs, motive cs → motive (needle ++ cs))
    (other : ∀ c cs, ¬needle <+: c :: cs → motive cs → motive (c :: cs)) (cs : List Char) :
    motive cs := by
  induction hn : cs.length using Nat.strong_induction_on generalizing cs with
  | h n ih =>
    subst hn
    by_cases hbegins : needle <+: cs
    · obtain ⟨rest, rfl⟩ := hbegins
      have hpos := List.length_pos_iff.2 hneedle
      exact occurrence rest (ih _ (by rw [List.length_append]; omega) rest rfl)
    · cases cs with
      | nil => exact empty
      | cons c cs => exact other c cs hbegins (ih _ (by simp) cs rfl)

/-! ## Borders -/

/-- No occurrence lies across the border between two texts. -/
def NoneAcross (needle cs ds : List Char) : Prop :=
  ∀ front back, front ++ back = needle → front <:+ cs → back <+: ds → front = [] ∨ back = []

theorem NoneAcross.of_suffix {cs' : List Char} (h : NoneAcross needle cs ds) (hsuffix : cs' <:+ cs) :
    NoneAcross needle cs' ds :=
  fun front back heq hfront hback => h front back heq (hfront.trans hsuffix) hback

theorem NoneAcross.prefix_of_prefix_append (h : NoneAcross needle cs ds) (hcs : cs ≠ [])
    (hbegins : needle <+: cs ++ ds) : needle <+: cs := by
  obtain ⟨rest, hrest⟩ := hbegins
  rcases List.append_eq_append_iff.1 hrest with ⟨more, rfl, -⟩ | ⟨back, hback, rest', hds⟩
  · exact List.prefix_append _ _
  · rcases h cs back hback.symm (List.suffix_refl _) (List.prefix_append _ _) with hnil | rfl
    · exact absurd hnil hcs
    · rw [hback, List.append_nil]

/-- What begins the second text stands nowhere in an occurrence but at its beginning. -/
theorem noneAcross_of_head (h : ∀ c ∈ ds.head?, c ∉ needle.tail) : NoneAcross needle cs ds := by
  rintro front back rfl - hback
  cases front with
  | nil => exact .inl rfl
  | cons c front =>
    cases back with
    | nil => exact .inr rfl
    | cons d back =>
      obtain ⟨more, rfl⟩ := hback
      exact absurd (by simp) (h d rfl)

/-- The second text begins with what stands in an occurrence, if at all, only behind its first
character, and that is not what the first text ends with. -/
theorem noneAcross_of_getLast {d : Char} {more : List Char} (hlast : cs.getLast? ≠ some d)
    (h : ∀ c ∈ ds.head?, c ∉ more.tail) : NoneAcross (d :: more) cs ds := by
  intro front back heq hfront hback
  cases front with
  | nil => exact .inl rfl
  | cons c front =>
    obtain ⟨rfl, rfl⟩ := List.cons.inj heq
    cases front with
    | nil =>
      obtain ⟨begin, rfl⟩ := hfront
      exact absurd List.getLast?_concat hlast
    | cons c' front =>
      cases back with
      | nil => exact .inr rfl
      | cons e back =>
        obtain ⟨rest, rfl⟩ := hback
        exact absurd (by simp) (h e rfl)

theorem noneAcross_of_not_mem {d : Char} (h : d ∉ cs) (more ds : List Char) :
    NoneAcross (d :: more) cs ds := by
  intro front back heq hfront _
  cases front with
  | nil => exact .inl rfl
  | cons c front => exact absurd (hfront.subset ((List.cons.inj heq).1 ▸ List.mem_cons_self)) h

/-- Both texts are rewritten on their own where no occurrence lies across their border. -/
theorem replace_append (hneedle : needle ≠ []) (replacement : List Char)
    (h : NoneAcross needle cs ds) :
    replace needle replacement (cs ++ ds) =
      replace needle replacement cs ++ replace needle replacement ds := by
  induction cs using replace_cases hneedle with
  | empty => rfl
  | occurrence cs ih =>
    rw [List.append_assoc, replace_occurrence hneedle, replace_occurrence hneedle,
      ih (h.of_suffix (List.suffix_append _ _)), List.append_assoc]
  | other c cs hnot ih =>
    have hnot' : ¬needle <+: c :: (cs ++ ds) := fun hbegins =>
      hnot (h.prefix_of_prefix_append (List.cons_ne_nil c cs) hbegins)
    rw [List.cons_append, replace_cons_of_not_begins hnot', replace_cons_of_not_begins hnot,
      ih (h.of_suffix (List.suffix_cons c cs)), List.cons_append]

/-- An occurrence whose first character is not in it again is rewritten wherever it stands. -/
theorem replace_around {d : Char} {more : List Char} (hd : d ∉ more)
    (replacement cs ds : List Char) :
    replace (d :: more) replacement (cs ++ (d :: more) ++ ds) =
      replace (d :: more) replacement cs ++ replacement ++
        replace (d :: more) replacement ds := by
  have hnone : NoneAcross (d :: more) cs (d :: more ++ ds) :=
    noneAcross_of_head (by simpa using hd)
  rw [List.append_assoc, replace_append (List.cons_ne_nil d more) replacement hnone,
    replace_occurrence (List.cons_ne_nil d more), List.append_assoc]

/-! ## What stays -/

/-- Nothing occurs across a character that is not in it. -/
theorem not_infix_append_cons {c : Char} (hcs : ¬needle <:+: cs) (hds : ¬needle <:+: ds)
    (hc : c ∉ needle) : ¬needle <:+: cs ++ c :: ds := by
  induction cs with
  | nil =>
    rw [List.nil_append, List.infix_cons_iff, not_or]
    refine ⟨fun hbegins => ?_, hds⟩
    rcases List.prefix_cons_iff.1 hbegins with rfl | ⟨more, rfl, -⟩
    · exact hcs List.nil_infix
    · exact hc List.mem_cons_self
  | cons d cs ih =>
    have hnone : NoneAcross needle (d :: cs) (c :: ds) := by
      apply noneAcross_of_head
      rintro _ ⟨⟩
      exact mt List.mem_of_mem_tail hc
    rw [List.infix_cons_iff, not_or] at hcs
    rw [List.cons_append, List.infix_cons_iff, not_or]
    exact ⟨fun hbegins => hcs.1 (hnone.prefix_of_prefix_append (List.cons_ne_nil d cs) hbegins),
      ih hcs.2⟩

theorem replace_of_not_infix (replacement : List Char) (h : ¬needle <:+: cs) :
    replace needle replacement cs = cs := by
  induction cs with
  | nil => rfl
  | cons c cs ih =>
    rw [List.infix_cons_iff, not_or] at h
    rw [replace_cons_of_not_begins h.1, ih h.2]

/-- A character that is in no occurrence parts a text. -/
theorem replace_append_cons {c : Char} (hneedle : needle ≠ []) (hc : c ∉ needle)
    (replacement cs ds : List Char) :
    replace needle replacement (cs ++ c :: ds) =
      replace needle replacement cs ++ c :: replace needle replacement ds := by
  have htail : c ∉ needle.tail := fun hmem => hc (List.mem_of_mem_tail hmem)
  have hnot : ¬needle <+: c :: ds := by
    obtain ⟨d, more, rfl⟩ := List.exists_cons_of_ne_nil hneedle
    exact fun hbegins => hc ((List.cons_prefix_cons.1 hbegins).1 ▸ List.mem_cons_self)
  rw [replace_append hneedle replacement (noneAcross_of_head (by simpa using htail)),
    replace_cons_of_not_begins hnot]

/-- A character of the rewritten text was in the text or comes from what was put in. -/
theorem mem_of_mem_replace {c : Char} (hneedle : needle ≠ [])
    (h : c ∈ replace needle replacement cs) : c ∈ cs ∨ c ∈ replacement := by
  induction cs using replace_cases hneedle with
  | empty => cases h
  | occurrence cs ih =>
    rw [replace_occurrence hneedle, List.mem_append] at h
    rcases h with h | h
    · exact .inr h
    · exact (ih h).imp_left (List.mem_append_right needle)
  | other d cs hnot ih =>
    rw [replace_cons_of_not_begins hnot, List.mem_cons] at h
    rcases h with rfl | h
    · exact .inl List.mem_cons_self
    · exact (ih h).imp_left (List.mem_cons_of_mem d)

/-! ## Nothing is left -/

section

variable {c : Char}

/-- What the rewritten text begins with, if no character of it was put in, is what the text begins
with. -/
theorem prefix_of_prefix_replace {xs : List Char} (hneedle : needle ≠ []) (hc : c ∉ xs)
    (h : xs <+: replace needle [c] cs) : xs <+: cs := by
  induction cs using replace_cases hneedle generalizing xs with
  | empty => exact h
  | occurrence cs ih =>
    rw [replace_occurrence hneedle] at h
    cases xs with
    | nil => exact List.nil_prefix
    | cons x xs => exact absurd ((List.cons_prefix_cons.1 h).1 ▸ List.mem_cons_self) hc
  | other d cs hnot ih =>
    rw [replace_cons_of_not_begins hnot] at h
    cases xs with
    | nil => exact List.nil_prefix
    | cons x xs =>
      obtain ⟨rfl, hxs⟩ := List.cons_prefix_cons.1 h
      exact List.cons_prefix_cons.2 ⟨rfl, ih (fun hmem => hc (List.mem_cons_of_mem _ hmem)) hxs⟩

/-- No occurrence is left when each has become a character that is in none. -/
theorem not_infix_replace (hneedle : needle ≠ []) (hc : c ∉ needle) (cs : List Char) :
    ¬needle <:+: replace needle [c] cs := by
  induction cs using replace_cases hneedle with
  | empty => simpa using hneedle
  | occurrence cs ih =>
    rw [replace_occurrence hneedle, List.singleton_append, List.infix_cons_iff, not_or]
    refine ⟨fun hbegins => ?_, ih⟩
    obtain ⟨d, more, rfl⟩ := List.exists_cons_of_ne_nil hneedle
    exact hc ((List.cons_prefix_cons.1 hbegins).1 ▸ List.mem_cons_self)
  | other d cs hnot ih =>
    rw [replace_cons_of_not_begins hnot, List.infix_cons_iff, not_or]
    refine ⟨fun hbegins => hnot ?_, ih⟩
    rw [← replace_cons_of_not_begins hnot] at hbegins
    exact prefix_of_prefix_replace hneedle hc hbegins

end

end Worksheet.Text
