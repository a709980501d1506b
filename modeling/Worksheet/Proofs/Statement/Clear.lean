import Worksheet.Proofs.Markup
import Worksheet.Proofs.Statement.Asking
import Worksheet.Proofs.Text.Blank
/-!
# Statements with results

A statement that is rendered with its result is still the same statement, and so is what clearing
leaves of it, as far as it can be read.
-/

namespace Worksheet.Statement

open Text

theorem parse_eq (text : String) :
    parse text =
      parseBody (trimEnd (Markup.split text.toList).1) (Markup.split text.toList).2 := rfl

/-- The text that the result of a statement comes after, whether or not it can be read. -/
def leadOf (text : String) : List Char :=
  match parse text with
  | .error _ => trimEnd (Markup.split text.toList).1
  | .ok p => p.lead.toList

variable {text : String} {p : ParsedStatement} {e : Error}

theorem leadOf_error (h : parse text = .error e) :
    leadOf text = trimEnd (Markup.split text.toList).1 := by
  unfold leadOf
  rw [h]

theorem leadOf_ok (h : parse text = .ok p) : leadOf text = p.lead.toList := by
  unfold leadOf
  rw [h]

/-- Shows its value, in whatever unit. -/
def IsShown (text : String) : Prop := ∃ p, parse text = .ok p ∧ p.statement.display? ≠ none

theorem leadOf_of_not_isShown (h : ¬IsShown text) :
    leadOf text = trimEnd (Markup.split text.toList).1 := by
  cases hparse : parse text with
  | error e => exact leadOf_error hparse
  | ok p =>
      rw [leadOf_ok hparse]
      refine parseBody_silent hparse (Classical.byContradiction fun hshown => ?_)
      exact h ⟨p, hparse, hshown⟩

theorem leadOf_isShown (h : IsShown text) :
    ∃ front c, leadOf text = front ++ [c] ∧ (c = '=' ∨ c = '>') := by
  obtain ⟨p, hparse, hshown⟩ := h
  rw [leadOf_ok hparse]
  exact (parseBody_shown hparse hshown).1

theorem leadOf_isPrefix (text : String) : leadOf text <+: trimEnd (Markup.split text.toList).1 := by
  by_cases h : IsShown text
  · obtain ⟨p, hparse, hshown⟩ := h
    rw [leadOf_ok hparse]
    exact (parseBody_shown hparse hshown).2.1
  · rw [leadOf_of_not_isShown h]

theorem leadOf_free (text : String) : Markup.Free (leadOf text) :=
  (Markup.split_free text.toList).of_isPrefix ((leadOf_isPrefix text).trans (trimEnd_isPrefix _))

theorem trimEnd_leadOf (text : String) : trimEnd (leadOf text) = leadOf text := by
  by_cases h : IsShown text
  · obtain ⟨front, c, hlead, hc⟩ := leadOf_isShown h
    rw [hlead]
    refine trimEnd_concat ?_ front
    rcases hc with rfl | rfl <;> decide
  · rw [leadOf_of_not_isShown h, trimEnd_trimEnd]

/-- A text that can stand behind a lead as a result: it begins with a blank and leaves no group
open, so that neither an operator nor a markup begins in it. Only a value that is shown is more than
a blank. -/
structure IsResult (text : String) (result : List Char) : Prop where
  blank : ∀ c, result.head? = some c → c = ' '
  closed : Closed true result
  shown : IsShown text ∨ result = [] ∨ result = [' ']

theorem isResult_nil (text : String) : IsResult text [] where
  blank c h := by cases h
  closed := .nil
  shown := .inr (.inl rfl)

theorem isResult_blank (text : String) : IsResult text [' '] where
  blank c h := by
    cases h
    rfl
  closed := closed_word (by decide)
  shown := .inr (.inr rfl)

variable {result : List Char}

theorem IsResult.free (h : IsResult text result) : Markup.Free (leadOf text ++ result) := by
  refine (leadOf_free text).append h.blank (Markup.free_of_closed h.closed) ?_
  rcases h.shown with hshown | rfl | rfl
  · obtain ⟨front, c, hlead, hc⟩ := leadOf_isShown hshown
    rw [hlead, List.getLast?_concat]
    rcases hc with rfl | rfl <;> exact .inl (by decide)
  · exact .inr List.not_mem_nil
  · exact .inr (by decide)

/-- No operator stands in a result. -/
theorem IsResult.divide_trimEnd (h : IsResult text result) :
    divide 0 (trimEnd result) = (trimEnd result, []) := by
  have hclosed : divide 0 (result ++ []) = (result ++ (divide 0 []).1, (divide 0 []).2) :=
    divide_closed h.closed (Int.le_refl 0) fun _ => ⟨rfl, stops_nil⟩
  rw [List.append_nil] at hclosed
  have hnone : (divide 0 (trimEnd result)).2 = [] :=
    divide_of_isPrefix (trimEnd_isPrefix result) (by rw [hclosed]; rfl)
  have hjoined := joined_divide 0 (trimEnd result)
  rw [hnone, joined_nil] at hjoined
  exact Prod.ext hjoined hnone

/-- What is read from a lead with a result behind it. -/
theorem IsResult.parseBody (h : IsResult text result) (markup : Option (List Char)) :
    Alike (parse text) (parseBody (trimEnd (leadOf text ++ result)) markup) := by
  rw [trimEnd_append_of_trimmed (trimEnd_leadOf text)]
  by_cases hshown : IsShown text
  · obtain ⟨p, hparse, hdisplay⟩ := hshown
    have hnone : (divide 0 (trimEnd result)).2 = [] := by rw [h.divide_trimEnd]
    rcases (parseBody_shown hparse hdisplay).2.2 (trimEnd result) markup with
      ⟨-, hint, hread⟩ | ⟨hsome, -⟩
    · rw [leadOf_ok hparse, hparse, hread]
      exact .ok p hint
    · exact absurd hnone hsome
  · have htrim : trimEnd result = [] := by
      rcases h.shown with hshown' | rfl | rfl
      · exact absurd hshown' hshown
      · rfl
      · rfl
    rw [htrim, List.append_nil, leadOf_of_not_isShown hshown]
    exact parseBody_alike _ _ _

/-- A markup, or nothing. -/
def IsMarkup (markup : List Char) : Prop := markup = [] ∨ Markup.start <+: markup

variable {markup : List Char}

theorem IsResult.split (h : IsResult text result) (hmarkup : IsMarkup markup) :
    (Markup.split (leadOf text ++ result ++ markup)).1 = leadOf text ++ result := by
  rcases hmarkup with rfl | ⟨after, rfl⟩
  · rw [List.append_nil, h.free.split]
  · rw [← List.append_assoc, h.free.split_append]

/-- A statement with its result and markup reads as the statement. -/
theorem IsResult.parse (h : IsResult text result) (hmarkup : IsMarkup markup) :
    Alike (parse text) (parse (String.ofList (leadOf text ++ result ++ markup))) := by
  have hbody := h.parseBody (Markup.split (leadOf text ++ result ++ markup)).2
  rw [parse_eq (String.ofList _), String.toList_ofList, h.split hmarkup]
  exact hbody

/-! ## Clearing -/

theorem clear_error (h : Statement.parse text = .error e) :
    clear text = String.ofList (leadOf text) := by
  simp only [clear, h, leadOf_error h]

theorem clear_ok (h : Statement.parse text = .ok p) :
    clear text = String.ofList (leadOf text) ∨
      (∃ own, p.statement.display? = some (.convert own)) ∧
        ∃ rest, clear text = String.ofList (leadOf text ++ rest) := by
  unfold clear
  rw [h, leadOf_ok h]
  dsimp only
  split
  · rename_i hint hdisplay
    refine .inr ⟨⟨_, hdisplay⟩, " \\mathrm\x7b".toList ++ hint.toList ++ ['\x7d'], ?_⟩
    simp [← String.toList_inj]
  · exact .inl (String.ofList_toList).symm

theorem Alike.error_left {e : Error} {reading : Except Error ParsedStatement}
    (h : Alike (.error e) reading) : reading = .error e := by
  cases h
  rfl

theorem Alike.ok_left {p : ParsedStatement} {reading : Except Error ParsedStatement}
    (h : Alike (.ok p) reading) : ∃ hint, reading = .ok (p.asking hint) := by
  cases h with
  | ok _ hint => exact ⟨hint, rfl⟩

/-- A lead by itself reads as its statement. -/
theorem parse_leadOf (text : String) :
    Alike (Statement.parse text) (Statement.parse (String.ofList (leadOf text))) := by
  have h := (isResult_nil text).parse (.inl rfl : IsMarkup [])
  rwa [List.append_nil, List.append_nil] at h

/-- A statement that can be read stays the same when it is cleared of its result, unless it shows a
value in a unit that has an operator in it. -/
theorem IsResult.parse_clear (h : IsResult text result) (hmarkup : IsMarkup markup)
    (hparse : Statement.parse text = .ok p) :
    (∃ hint, Statement.parse (clear (String.ofList (leadOf text ++ result ++ markup))) =
        .ok (p.asking hint)) ∨
      (∃ own, p.statement.display? = some (.convert own)) ∧
        ∃ e, Statement.parse (clear (String.ofList (leadOf text ++ result ++ markup))) =
          .error e := by
  have hread := h.parse hmarkup
  rw [hparse] at hread
  obtain ⟨hint, hread⟩ := hread.ok_left
  have hlead : leadOf (String.ofList (leadOf text ++ result ++ markup)) = leadOf text := by
    rw [leadOf_ok hread, leadOf_ok hparse]
    rfl
  rcases clear_ok hread with hclear | ⟨⟨own, hown⟩, rest, hclear⟩
  · rw [hclear, hlead]
    have halone := parse_leadOf text
    rw [hparse] at halone
    exact .inl halone.ok_left
  · rw [hclear, hlead]
    have hshown : ∃ own, p.statement.display? = some (.convert own) := by
      rw [ParsedStatement.asking, display?_asking] at hown
      obtain ⟨display, hdisplay, hask⟩ := Option.map_eq_some_iff.1 hown
      cases display with
      | raw => cases hask
      | convert own' => exact ⟨own', hdisplay⟩
    obtain ⟨own', hown'⟩ := hshown
    have hdisplay : p.statement.display? ≠ none := by
      rw [hown']
      exact Option.some_ne_none _
    -- a markup may begin in the unit, but not in what stands before it
    obtain ⟨front, c, hfront, hc⟩ := leadOf_isShown ⟨p, hparse, hdisplay⟩
    have hlast : ∀ c', (leadOf text).getLast? = some c' → c' ∉ Markup.start := by
      intro c' hc'
      rw [hfront, List.getLast?_concat] at hc'
      cases hc'
      rcases hc with rfl | rfl <;> decide
    obtain ⟨tail, htail⟩ := (leadOf_free text).prefix_split hlast rest
    rw [parse_eq, String.toList_ofList, ← htail,
      trimEnd_append_of_trimmed (trimEnd_leadOf text), leadOf_ok hparse]
    rcases (parseBody_shown hparse hdisplay).2.2 (trimEnd tail) _ with
      ⟨-, hint', hread'⟩ | ⟨-, e, hread'⟩
    · exact .inl ⟨hint', hread'⟩
    · exact .inr ⟨⟨own', hown'⟩, e, hread'⟩

/-- A statement that cannot be read fails in the same way when it is cleared. -/
theorem IsResult.clear_error (h : IsResult text result) (hmarkup : IsMarkup markup)
    (hparse : Statement.parse text = .error e) :
    let cleared := clear (String.ofList (leadOf text ++ result ++ markup))
    Statement.parse cleared = .error e ∧ leadOf cleared = leadOf text := by
  have hread := h.parse hmarkup
  rw [hparse] at hread
  have hfailed := hread.error_left
  have hsilent : ¬IsShown text := by
    rintro ⟨p, hp, -⟩
    rw [hparse] at hp
    cases hp
  have hblank : trimEnd result = [] := by
    rcases h.shown with hshown | rfl | rfl
    · exact absurd hshown hsilent
    · rfl
    · rfl
  have hlead : leadOf (String.ofList (leadOf text ++ result ++ markup)) = leadOf text := by
    rw [leadOf_error hfailed, String.toList_ofList, h.split hmarkup,
      trimEnd_append_of_trimmed (trimEnd_leadOf text), hblank, List.append_nil]
  have halone := parse_leadOf text
  rw [hparse] at halone
  intro cleared
  have hcleared : cleared = String.ofList (leadOf text) := by
    rw [← hlead]
    exact Statement.clear_error hfailed
  rw [hcleared]
  refine ⟨halone.error_left, ?_⟩
  rw [leadOf_error halone.error_left, String.toList_ofList, (leadOf_free text).split,
    trimEnd_leadOf]

end Worksheet.Statement
