import Worksheet.Text.Search
import Mathlib.Data.List.Infix
/-!
# Searching a text

The first occurrence of a text is where the text is split, and a run of characters ends where the
first other one stands.
-/

namespace Worksheet.Text

/-- What is asked of the elements of a list is asked of them one by one. There are finitely many
characters, and what is asked of those in a list must not be asked of all there are. -/
instance (priority := 2000) decidableForallMem {α : Type} (P : α → Prop) [DecidablePred P]
    (xs : List α) : Decidable (∀ x ∈ xs, P x) :=
  List.decidableBAll P xs

variable {needle before after cs : List Char}

theorem splitAt?_cons (needle : List Char) (c : Char) (cs : List Char) :
    splitAt? needle (c :: cs) =
      match needle.isPrefixOf? (c :: cs) with
      | some rest => some ([], rest)
      | none => (splitAt? needle cs).map fun (before, after) => (c :: before, after) := rfl

theorem splitAt?_eq_none_iff (hneedle : needle ≠ []) :
    splitAt? needle cs = none ↔ ¬needle <:+: cs := by
  induction cs with
  | nil => simpa [splitAt?] using hneedle
  | cons c cs ih =>
      rw [splitAt?_cons, List.infix_cons_iff]
      cases hbegins : needle.isPrefixOf? (c :: cs) with
      | some rest =>
          have hfound : needle <+: c :: cs :=
            ⟨rest, List.isPrefixOf?_eq_some_iff_append_eq.1 hbegins⟩
          simp [hfound]
      | none =>
          have habsent : ¬needle <+: c :: cs := by
            rintro ⟨rest, hrest⟩
            rw [List.isPrefixOf?_eq_some_iff_append_eq.2 hrest] at hbegins
            cases hbegins
          simp [habsent, ih]

theorem append_eq_dropLast_append (hneedle : needle ≠ []) (before after : List Char) :
    before ++ needle ++ after =
      (before ++ needle.dropLast) ++ needle.getLast hneedle :: after := by
  have hsplit := List.dropLast_concat_getLast hneedle
  calc before ++ needle ++ after
      = before ++ (needle.dropLast ++ [needle.getLast hneedle]) ++ after := by rw [hsplit]
    _ = (before ++ needle.dropLast) ++ needle.getLast hneedle :: after := by simp

/-- What is before the first occurrence has none, not even one that runs into it. -/
theorem splitAt?_eq_some (hneedle : needle ≠ []) (h : splitAt? needle cs = some (before, after)) :
    cs = before ++ needle ++ after ∧ ¬needle <:+: before ++ needle.dropLast := by
  induction cs generalizing before with
  | nil => cases h
  | cons c cs ih =>
      rw [splitAt?_cons] at h
      cases hbegins : needle.isPrefixOf? (c :: cs) with
      | some rest =>
          rw [hbegins] at h
          cases h
          have hlength : needle.dropLast.length < needle.length := by
            rw [List.length_dropLast]
            have hpos := List.length_pos_iff.2 hneedle
            omega
          refine ⟨(List.isPrefixOf?_eq_some_iff_append_eq.1 hbegins).symm, fun hinside => ?_⟩
          have hle := hinside.length_le
          rw [List.nil_append] at hle
          omega
      | none =>
          rw [hbegins] at h
          obtain ⟨⟨rest, after'⟩, hsplit, heq⟩ := Option.map_eq_some_iff.1 h
          cases heq
          obtain ⟨rfl, hfirst⟩ := ih hsplit
          refine ⟨rfl, fun hinside => ?_⟩
          rw [List.cons_append, List.infix_cons_iff] at hinside
          rcases hinside with ⟨tail, htail⟩ | hinside
          · have hlong : needle ++ (tail ++ needle.getLast hneedle :: after) =
                c :: (rest ++ needle ++ after) := by
              rw [append_eq_dropLast_append hneedle, ← List.append_assoc, htail]
              rfl
            rw [List.isPrefixOf?_eq_some_iff_append_eq.2 hlong] at hbegins
            cases hbegins
          · exact hfirst hinside

/-- A text is split where an occurrence is that none comes before. -/
theorem splitAt?_append (hneedle : needle ≠ []) (h : ¬needle <:+: before ++ needle.dropLast)
    (after : List Char) : splitAt? needle (before ++ needle ++ after) = some (before, after) := by
  induction before with
  | nil =>
      obtain ⟨c, rest, rfl⟩ := List.exists_cons_of_ne_nil hneedle
      have hbegins : (c :: rest).isPrefixOf? (c :: (rest ++ after)) = some after :=
        List.isPrefixOf?_eq_some_iff_append_eq.2 rfl
      change splitAt? (c :: rest) (c :: (rest ++ after)) = _
      rw [splitAt?_cons, hbegins]
  | cons c before ih =>
      rw [List.cons_append, List.infix_cons_iff, not_or] at h
      have hbegins : needle.isPrefixOf? (c :: (before ++ needle ++ after)) = none := by
        rw [Option.eq_none_iff_forall_ne_some]
        intro rest hrest
        have hlong : needle <+: c :: (before ++ needle.dropLast) ++
            needle.getLast hneedle :: after := by
          refine ⟨rest, ?_⟩
          rw [List.isPrefixOf?_eq_some_iff_append_eq.1 hrest, append_eq_dropLast_append hneedle]
          rfl
        have hlength : needle.length ≤ (c :: (before ++ needle.dropLast)).length := by
          have hpos := List.length_pos_iff.2 hneedle
          rw [List.length_cons, List.length_append, List.length_dropLast]
          omega
        exact h.1 (List.prefix_of_prefix_length_le hlong (List.prefix_append _ _) hlength)
      change splitAt? needle (c :: (before ++ needle ++ after)) = _
      rw [splitAt?_cons, hbegins, ih h.2]
      rfl

/-- A text without one of the characters of the other one stays. -/
theorem replace_eq_self {c : Char} (hc : c ∈ needle) (replacement : List Char) (h : c ∉ cs) :
    replace needle replacement cs = cs := by
  change replaceFrom needle replacement 0 cs = cs
  induction cs with
  | nil => rfl
  | cons d cs ih =>
      have hbegins : needle.isPrefixOf (d :: cs) = false := by
        rw [Bool.eq_false_iff]
        intro hfound
        exact h ((List.isPrefixOf_iff_prefix.1 hfound).subset hc)
      rw [replaceFrom, if_neg (by simp [hbegins]), ih fun hmem => h (List.mem_cons_of_mem _ hmem)]

/-- What counts the same in both texts counts the same after one has taken the other's place. -/
theorem countP_replace {p : Char → Bool} {replacement : List Char} (hneedle : needle ≠ [])
    (h : replacement.countP p = needle.countP p) :
    (replace needle replacement cs).countP p = cs.countP p := by
  have hdropped : ∀ (n : Nat) (cs : List Char),
      (replaceFrom needle replacement n cs).countP p = (cs.drop n).countP p := by
    intro n cs
    induction cs generalizing n with
    | nil => cases n <;> rfl
    | cons c cs ih =>
      cases n with
      | succ n => exact ih n
      | zero =>
        rw [replaceFrom]
        split
        · rename_i hfound
          obtain ⟨d, ds, rfl⟩ := List.exists_cons_of_ne_nil hneedle
          obtain ⟨rfl, rest, rfl⟩ := List.cons_prefix_cons.1 (List.isPrefixOf_iff_prefix.1 hfound)
          rw [List.countP_append, ih, h, List.length_cons, Nat.add_sub_cancel, List.drop_left,
            List.drop_zero, ← List.cons_append, List.countP_append]
        · rw [List.countP_cons, ih, List.drop_zero, List.drop_zero, List.countP_cons]
  exact hdropped 0 cs

/-! ## Runs -/

section

variable {p : Char → Bool} {run rest : List Char}

/-- A text does not go on with a character of some kind. -/
def Stops (p : Char → Bool) (cs : List Char) : Prop := ∀ c ∈ cs.head?, p c = false

theorem stops_nil : Stops p [] := nofun

@[simp] theorem stops_cons {c : Char} {cs : List Char} : Stops p (c :: cs) ↔ p c = false := by
  simp [Stops]

theorem takeWhile_append_of_stops (hrun : ∀ c ∈ run, p c) (hrest : Stops p rest) :
    (run ++ rest).takeWhile p = run := by
  rw [List.takeWhile_append_of_pos hrun]
  cases rest with
  | nil => simp
  | cons c rest => simp [stops_cons.1 hrest]

theorem dropWhile_of_stops (h : Stops p rest) : rest.dropWhile p = rest := by
  cases rest with
  | nil => rfl
  | cons c rest => simp [stops_cons.1 h]

theorem stops_dropWhile (p : Char → Bool) (cs : List Char) : Stops p (cs.dropWhile p) := by
  intro c hc
  have hhead := List.head?_dropWhile_not p cs
  rw [hc] at hhead
  simpa using hhead

theorem dropWhile_append_of_stops (hrun : ∀ c ∈ run, p c) (hrest : Stops p rest) :
    (run ++ rest).dropWhile p = rest := by
  rw [List.dropWhile_append_of_pos hrun, dropWhile_of_stops hrest]

theorem takeWhile_append_stops (hrest : Stops p rest) (cs : List Char) :
    (cs ++ rest).takeWhile p = cs.takeWhile p := by
  rw [List.takeWhile_append]
  split
  · rename_i hall
    have htake : rest.takeWhile p = [] := by
      cases rest with
      | nil => rfl
      | cons c rest => simp [stops_cons.1 hrest]
    rw [htake, List.append_nil]
    exact ((List.takeWhile_prefix p).eq_of_length hall).symm
  · rfl

theorem dropWhile_append_stops (hrest : Stops p rest) (cs : List Char) :
    (cs ++ rest).dropWhile p = cs.dropWhile p ++ rest := by
  induction cs with
  | nil => exact dropWhile_of_stops hrest
  | cons c cs ih =>
    rw [List.cons_append, List.dropWhile_cons, List.dropWhile_cons, ih]
    split <;> rfl

end

end Worksheet.Text
