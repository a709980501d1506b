import Worksheet.Name
import Worksheet.Proofs.Text.Replace
import Mathlib.Logic.Relation
/-!
# Canonical spellings

Every spelling has one canonical form, which is its own canonical form. Two spellings share it
exactly when they differ in braces, in blanks and in how a prime is written.
-/

namespace Worksheet.Name

open Text

/-- What counts in a spelling. -/
def kept (cs : List Char) : List Char := cs.filter fun c => !isLayout c

/-- Ways to write a prime as a superscript. -/
def superscripts : List (List Char) := ["^\\prime".toList, "^\x7b\\prime\x7d".toList]

/-- A change to a spelling that leaves the name as it is. Behind a caret, the bare command would be
read together with it. -/
inductive Respelled : List Char → List Char → Prop where
  | layout {c : Char} (hc : isLayout c) (front back : List Char) :
      Respelled (front ++ c :: back) (front ++ back)
  | prime {written : List Char} (hwritten : written ∈ superscripts) (front back : List Char) :
      Respelled (front ++ '\'' :: back) (front ++ written ++ back)
  | bare {front : List Char} (hcaret : (kept front).getLast? ≠ some '^') (back : List Char) :
      Respelled (front ++ '\'' :: back) (front ++ "\\prime".toList ++ back)

/-- Spellings that differ only in layout and in how primes are written. -/
def Alike (s t : String) : Prop := Relation.EqvGen Respelled s.toList t.toList

/-- The spelling with its superscripts written as apostrophes. -/
def lowered (cs : List Char) : List Char := replace "^\\prime".toList ['\''] (kept cs)

theorem spell_eq (cs : List Char) : spell cs = replace "\\prime".toList ['\''] (lowered cs) := rfl

/-! ## The canonical form -/

theorem kept_append (cs ds : List Char) : kept (cs ++ ds) = kept cs ++ kept ds :=
  List.filter_append ..

theorem kept_cons {c : Char} (hc : isLayout c = false) (cs : List Char) :
    kept (c :: cs) = c :: kept cs := by
  simp [kept, hc]

theorem isLayout_of_mem_spell {c : Char} {cs : List Char} (h : c ∈ spell cs) :
    isLayout c = false := by
  have hprime : ∀ c ∈ ['\''], isLayout c = false := by decide
  rcases mem_of_mem_replace (by decide) h with h | h
  · rcases mem_of_mem_replace (by decide) h with h | h
    · simpa using (List.mem_filter.1 h).2
    · exact hprime c h
  · exact hprime c h

theorem not_prime_infix_spell (cs : List Char) : ¬"\\prime".toList <:+: spell cs :=
  not_infix_replace (by decide) (by decide) (lowered cs)

/-- A text without layout and without the command is canonical. -/
theorem spell_eq_self {cs : List Char} (hlayout : ∀ c ∈ cs, isLayout c = false)
    (hprime : ¬"\\prime".toList <:+: cs) : spell cs = cs := by
  have hkept : kept cs = cs := List.filter_eq_self.2 fun c hc => by simp [hlayout c hc]
  have hsuper : ¬"^\\prime".toList <:+: cs := fun hinside =>
    hprime ((List.suffix_cons '^' "\\prime".toList).isInfix.trans hinside)
  rw [spell_eq, lowered, hkept, replace_of_not_infix _ hsuper, replace_of_not_infix _ hprime]

theorem spell_spell (cs : List Char) : spell (spell cs) = spell cs :=
  spell_eq_self (fun _ hc => isLayout_of_mem_spell hc) (not_prime_infix_spell cs)

theorem ofSpelling_text (s : String) : ofSpelling (ofSpelling s).text = ofSpelling s := by
  simp only [ofSpelling, String.toList_ofList, spell_spell]

/-! ## Changes that keep the name -/

/-- An apostrophe parts a spelling. -/
theorem lowered_apostrophe (front back : List Char) :
    lowered (front ++ '\'' :: back) = lowered front ++ '\'' :: lowered back := by
  rw [lowered, kept_append, kept_cons (by decide),
    replace_append_cons (by decide) (by decide)]
  rfl

theorem lowered_superscript {written : List Char} (h : written ∈ superscripts)
    (front back : List Char) :
    lowered (front ++ written ++ back) = lowered (front ++ '\'' :: back) := by
  have hwritten : ∀ written ∈ superscripts, kept written = "^\\prime".toList := by decide
  have hcaret : '^' ∉ "\\prime".toList := by decide
  rw [lowered_apostrophe, lowered, kept_append, kept_append, hwritten written h]
  exact (replace_around hcaret ['\''] _ _).trans (by simp [lowered])

/-- Behind anything but a caret the bare command stays for the second step. -/
theorem lowered_bare {front : List Char} (hcaret : (kept front).getLast? ≠ some '^')
    (back : List Char) :
    lowered (front ++ "\\prime".toList ++ back) =
      lowered front ++ "\\prime".toList ++ lowered back := by
  have hkept : kept "\\prime".toList = "\\prime".toList := by decide
  have hslash : '\\' ∉ "prime".toList := by decide
  have hbefore : NoneAcross "^\\prime".toList (kept front) ("\\prime".toList ++ kept back) :=
    noneAcross_of_getLast hcaret fun c hc => Option.some.inj hc ▸ hslash
  have hafter : NoneAcross "^\\prime".toList "\\prime".toList (kept back) :=
    noneAcross_of_not_mem (by decide) _ _
  rw [lowered, kept_append, kept_append, hkept, List.append_assoc,
    replace_append (by decide) _ hbefore, replace_append (by decide) _ hafter,
    ← List.append_assoc]
  rfl

theorem spell_bare {front : List Char} (hcaret : (kept front).getLast? ≠ some '^')
    (back : List Char) :
    spell (front ++ "\\prime".toList ++ back) = spell (front ++ '\'' :: back) := by
  have hslash : '\\' ∉ "prime".toList := by decide
  have hquote : '\'' ∉ "\\prime".toList := by decide
  rw [spell_eq, spell_eq, lowered_bare hcaret, lowered_apostrophe,
    replace_append_cons (by decide) hquote]
  exact (replace_around hslash ['\''] _ _).trans (by simp)

theorem Respelled.spell_eq {cs ds : List Char} (h : Respelled cs ds) : spell cs = spell ds := by
  cases h with
  | @layout c hc front back =>
    have hkept : kept (front ++ c :: back) = kept (front ++ back) := by
      simp [kept, hc]
    rw [Name.spell_eq, Name.spell_eq, lowered, lowered, hkept]
  | prime hwritten front back =>
    rw [Name.spell_eq, Name.spell_eq, lowered_superscript hwritten]
  | bare hcaret back => exact (spell_bare hcaret back).symm

theorem spell_eq_of_alike {cs ds : List Char} (h : Relation.EqvGen Respelled cs ds) :
    spell cs = spell ds := by
  induction h with
  | rel cs ds hstep => exact hstep.spell_eq
  | refl cs => rfl
  | symm cs ds _ ih => exact ih.symm
  | trans cs ds es _ _ ih ih' => exact ih.trans ih'

/-! ## Every spelling is like its canonical form -/

theorem alike_kept (front cs : List Char) :
    Relation.EqvGen Respelled (front ++ cs) (front ++ kept cs) := by
  induction cs generalizing front with
  | nil => exact .refl _
  | cons c cs ih =>
    cases hc : isLayout c with
    | true =>
      have hkept : kept (c :: cs) = kept cs := by simp [kept, hc]
      rw [hkept]
      exact .trans _ _ _ (.rel _ _ (.layout hc front cs)) (ih front)
    | false =>
      have hnext := ih (front ++ [c])
      rw [kept_cons hc]
      simpa using hnext

theorem alike_superscripts (front cs : List Char) :
    Relation.EqvGen Respelled (front ++ cs)
      (front ++ replace "^\\prime".toList ['\''] cs) := by
  have hneedle : "^\\prime".toList ≠ [] := by decide
  induction cs using replace_cases hneedle generalizing front with
  | empty => exact .refl _
  | occurrence cs ih =>
    have hstep : Respelled (front ++ '\'' :: cs) (front ++ "^\\prime".toList ++ cs) :=
      .prime (by decide) front cs
    have hnext := ih (front ++ ['\''])
    rw [replace_occurrence (by decide), ← List.append_assoc]
    refine .trans _ _ _ (.symm _ _ (.rel _ _ hstep)) ?_
    simpa using hnext
  | other c cs hnot ih =>
    have hnext := ih (front ++ [c])
    rw [replace_cons_of_not_begins hnot]
    simpa using hnext

/-- Where no superscript is left, the bare commands are primes too. -/
theorem alike_bare (front : List Char) {cs : List Char} (hlayout : ∀ c ∈ cs, isLayout c = false)
    (hcaret : (kept front).getLast? = some '^' → ¬"\\prime".toList <+: cs)
    (hsuper : ¬"^\\prime".toList <:+: cs) :
    Relation.EqvGen Respelled (front ++ cs) (front ++ replace "\\prime".toList ['\''] cs) := by
  have hneedle : "\\prime".toList ≠ [] := by decide
  induction cs using replace_cases hneedle generalizing front with
  | empty => exact .refl _
  | occurrence cs ih =>
    have hfront : (kept front).getLast? ≠ some '^' := fun hlast =>
      hcaret hlast (List.prefix_append _ _)
    have hquote : (kept (front ++ ['\''])).getLast? ≠ some '^' := by
      rw [kept_append, show kept ['\''] = ['\''] by decide, List.getLast?_concat]
      decide
    have hnext := ih (front ++ ['\'']) (fun c hc => hlayout c (List.mem_append_right _ hc))
      (fun hlast => absurd hlast hquote)
      (fun hinside => hsuper (hinside.trans (List.suffix_append _ cs).isInfix))
    rw [replace_occurrence (by decide), ← List.append_assoc]
    refine .trans _ _ _ (.symm _ _ (.rel _ _ (.bare hfront cs))) ?_
    simpa using hnext
  | other c cs hnot ih =>
    obtain ⟨hc, hcs⟩ := List.forall_mem_cons.1 hlayout
    rw [List.infix_cons_iff, not_or] at hsuper
    have hlast : (kept (front ++ [c])).getLast? = some c := by
      rw [kept_append, kept_cons hc, show kept [] = [] from rfl, List.getLast?_concat]
    have hnext := ih (front ++ [c]) hcs (fun hcaret hbegins => ?_) hsuper.2
    · rw [replace_cons_of_not_begins hnot]
      simpa using hnext
    · rw [hlast, Option.some_inj] at hcaret
      exact hsuper.1 (List.cons_prefix_cons.2 ⟨hcaret.symm, hbegins⟩)

theorem alike_spell (cs : List Char) : Relation.EqvGen Respelled cs (spell cs) := by
  have hlayout : ∀ c ∈ lowered cs, isLayout c = false := fun c hc => by
    rcases mem_of_mem_replace (by decide) hc with hc | hc
    · simpa using (List.mem_filter.1 hc).2
    · obtain rfl := List.mem_singleton.1 hc
      decide
  have hkept : Relation.EqvGen Respelled cs (kept cs) := alike_kept [] cs
  have hsuper : Relation.EqvGen Respelled (kept cs) (lowered cs) := alike_superscripts [] _
  have hbare : Relation.EqvGen Respelled (lowered cs) (spell cs) :=
    alike_bare [] hlayout (fun hcaret => by cases hcaret)
      (not_infix_replace (by decide) (by decide) _)
  exact hkept.trans _ _ _ (hsuper.trans _ _ _ hbare)

/-- The canonical spelling is a normal form: it has no layout and no command for a prime in it, it is
its own canonical spelling, and two spellings have the same exactly when one becomes the other by
changes that keep the name. -/
theorem ofSpelling_canonical (s : String) :
    ofSpelling (ofSpelling s).text = ofSpelling s ∧
      (∀ c ∈ (ofSpelling s).text.toList, c ≠ '\x7b' ∧ c ≠ '\x7d' ∧ isBlank c = false) ∧
      ¬"\\prime".toList <:+: (ofSpelling s).text.toList ∧
      ∀ t, ofSpelling t = ofSpelling s ↔ Alike s t := by
  have htext : (ofSpelling s).text.toList = spell s.toList := String.toList_ofList
  refine ⟨?_, fun c hc => ?_, ?_, fun t => ⟨fun h => ?_, fun h => ?_⟩⟩
  · rw [ofSpelling, htext, spell_spell]
    rfl
  · rw [htext] at hc
    simpa [isLayout, not_or, and_assoc] using isLayout_of_mem_spell hc
  · rw [htext]
    exact not_prime_infix_spell s.toList
  · have hspell : spell t.toList = spell s.toList := String.ofList_inj.1 (Name.mk.inj h)
    have hback := alike_spell t.toList
    rw [hspell] at hback
    exact (alike_spell s.toList).trans _ _ _ hback.symm
  · rw [ofSpelling, ofSpelling, spell_eq_of_alike h]

end Worksheet.Name
