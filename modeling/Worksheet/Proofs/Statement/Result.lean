import Worksheet.Proofs.Rendering.Values
import Worksheet.Statement.Result
/-!
# Results are passed over

What is rendered for a value is passed over up to its units, which are what the next run shows the
value in.
-/

namespace Worksheet.Result

open Text Number Numeral Rendering

variable {cs digits rest : List Char} {r : Rendering} {p : UnitProduct}

/-! ## Numbers -/

theorem splitSign_append (negative : Bool) {d : Char} (hd : d.isDigit) (rest : List Char) :
    splitSign (signText negative ++ d :: rest) = (signText negative, d :: rest) := by
  cases negative with
  | true => rfl
  | false =>
    have hplus : d ≠ '+' := by rintro rfl; cases hd
    have hminus : d ≠ '-' := by rintro rfl; cases hd
    change splitSign (d :: rest) = ([], d :: rest)
    unfold splitSign
    split <;> simp_all

theorem splitSign_toString (n : Int) (rest : List Char) :
    ∃ d ds, (∀ c ∈ d :: ds, c.isDigit) ∧
      (splitSign ((toString n).toList ++ rest)).2 = d :: ds ++ rest := by
  have hsplit : ∀ negative (m : Nat), ∃ d ds, (∀ c ∈ d :: ds, c.isDigit) ∧
      (splitSign (signText negative ++ ((toString m).toList ++ rest))).2 = d :: ds ++ rest := by
    intro negative m
    have hdigits : ∀ c ∈ (toString m).toList, c.isDigit := fun _ => isDigit_of_mem_toString
    obtain ⟨d, ds, hm⟩ := List.exists_cons_of_ne_nil (toString_ne_nil m)
    rw [hm] at hdigits ⊢
    refine ⟨d, ds, hdigits, ?_⟩
    rw [List.cons_append, splitSign_append negative (hdigits d List.mem_cons_self)]
  cases n with
  | ofNat m => exact hsplit false m
  | negSucc m =>
    rw [toList_toString_negSucc]
    exact hsplit true (m + 1)

theorem afterPowerOfTen?_power (e : Int) (rest : List Char) :
    afterPowerOfTen? (" \\times 10^\x7b".toList ++ ((toString e).toList ++ '\x7d' :: rest)) =
      some rest := by
  obtain ⟨d, ds, hdigits, hsign⟩ := splitSign_toString e ('\x7d' :: rest)
  have htimes : ∀ more,
      "\\times".toList.isPrefixOf? (trimStart (" \\times 10^\x7b".toList ++ more)) =
      some (' ' :: ("10^\x7b".toList ++ more)) :=
    fun more => List.isPrefixOf?_eq_some_iff_append_eq.2 rfl
  have hten : ∀ more, "10^\x7b".toList.isPrefixOf? (trimStart (' ' :: ("10^\x7b".toList ++ more))) =
      some more :=
    fun more => List.isPrefixOf?_eq_some_iff_append_eq.2 rfl
  unfold afterPowerOfTen?
  simp only [htimes, hten, hsign, Option.bind_eq_bind, Option.bind_some]
  rw [splitDigits_append hdigits (stops_cons.2 (by decide))]
  rfl

/-- A number is passed over with its sign and its power of ten. -/
theorem afterNumber?_figure (h : IsFigure cs) (hrest : Stops goesOn rest)
    (hpower : afterPowerOfTen? rest = none) : afterNumber? (cs ++ rest) = some rest := by
  have hsigned : ∀ {cs rest : List Char}, IsSigned cs → Stops goesOn rest →
      afterNumber? (cs ++ rest) = some ((afterPowerOfTen? rest).getD rest) := by
    rintro _ rest ⟨negative, digits, rfl, hdigits⟩ hrest
    obtain ⟨d, ds, rfl, hd⟩ := hdigits.begins
    have htrim : trimStart (d :: (ds ++ rest)) = d :: (ds ++ rest) :=
      dropWhile_of_stops (stops_cons.2 (isBlank_of_isDigit hd))
    have hsplit : split? (d :: (ds ++ rest)) = some (d :: ds, rest) := hdigits.split? hrest
    unfold afterNumber?
    rw [List.append_assoc, List.cons_append, splitSign_append negative hd]
    simp only [htrim, hsplit, Option.bind_eq_bind, Option.bind_some]
  cases h with
  | plain h => rw [hsigned h hrest, hpower, Option.getD_none]
  | scientific h e =>
    have hbreak : Stops goesOn (" \\times 10^\x7b".toList ++
        ((toString e).toList ++ '\x7d' :: rest)) := stops_goesOn (by decide) _
    have hwhole := hsigned h hbreak
    rw [afterPowerOfTen?_power, Option.getD_some] at hwhole
    simpa using hwhole

/-! ## Arrays -/

/-- The signs in a finite number. -/
def figureSigns : List Char :=
  ['-', '.', ' ', '\\', 't', 'i', 'm', 'e', 's', '1', '0', '^', '\x7b', '\x7d']

theorem mem_of_isSigned (h : IsSigned cs) {c : Char} (hc : c ∈ cs) :
    c.isDigit ∨ c ∈ ['-', '.'] := by
  obtain ⟨negative, digits, rfl, hdigits⟩ := h
  rcases List.mem_append.1 hc with hc | hc
  · cases negative with
    | false => cases hc
    | true =>
      obtain rfl := List.mem_singleton.1 hc
      exact .inr (by decide)
  · cases hdigits with
    | whole _ hall => exact .inl (hall c hc)
    | decimal _ hall hfraction =>
      rcases List.mem_append.1 hc with hc | hc
      · exact .inl (hall c hc)
      · rcases List.mem_cons.1 hc with rfl | hc
        · exact .inr (by decide)
        · exact .inl (hfraction c hc)

theorem mem_of_isFigure (h : IsFigure cs) {c : Char} (hc : c ∈ cs) :
    c.isDigit ∨ c ∈ figureSigns := by
  have hsigns : ∀ c ∈ ['-', '.'], c ∈ figureSigns := by decide
  have hpower : ∀ c ∈ " \\times 10^\x7b".toList, c ∈ figureSigns := by decide
  cases h with
  | plain h => exact (mem_of_isSigned h hc).imp_right (hsigns c)
  | scientific h e =>
    rcases List.mem_append.1 hc with hc | hc
    · exact (mem_of_isSigned h hc).imp_right (hsigns c)
    · rcases List.mem_append.1 hc with hc | hc
      · rcases List.mem_append.1 hc with hc | hc
        · exact .inr (hpower c hc)
        · rcases mem_toString_int hc with hdigit | rfl
          · exact .inl hdigit
          · exact .inr (by decide)
      · obtain rfl := List.mem_singleton.1 hc
        exact .inr (by decide)

/-- No bracket of an array is in a number, finite or not. -/
theorem not_mem_number (s : Settings) (x : Float) :
    ∀ c ∈ (number s x).toList, c ∉ ['[', ']'] := by
  intro c hc hbracket
  have hdigit : ∀ c ∈ ['[', ']'], c.isDigit = false ∧ c ∉ figureSigns := by decide
  have hspelled : ∀ text ∈ spelledOut, ∀ c ∈ text.toList, c ∉ ['[', ']'] := by decide
  rcases number_cases s x with hfigure | hnumber
  · rcases mem_of_isFigure hfigure hc with hc | hc
    · rw [(hdigit c hbracket).1] at hc
      cases hc
    · exact (hdigit c hbracket).2 hc
  · exact hspelled _ hnumber c hc hbracket

theorem afterArray?_append {depth : Nat} (h : ∀ c ∈ cs, c ∉ ['[', ']']) (rest : List Char) :
    afterArray? depth (cs ++ rest) = afterArray? depth rest := by
  induction cs with
  | nil => rfl
  | cons c cs ih =>
    obtain ⟨hc, hcs⟩ := List.forall_mem_cons.1 h
    simp only [List.mem_cons, List.not_mem_nil, or_false, not_or] at hc
    rw [List.cons_append, afterArray?, if_neg hc.1, if_neg hc.2, ih hcs]

/-- No end of a matrix begins in the text. -/
def Skips (cs : List Char) : Prop :=
  ∀ rest, afterMatrixEnd? (cs ++ rest) = afterMatrixEnd? rest

theorem composes_skips : Composes Skips where
  nil _ := rfl
  append h h' rest := by rw [List.append_assoc, h, h']

theorem afterMatrixEnd?_cons {c : Char} (h : ¬['\\', 'e'] <+: c :: cs) :
    afterMatrixEnd? (c :: cs) = afterMatrixEnd? cs := by
  have hnone : "\\end".toList.isPrefixOf? (c :: cs) = none := by
    rw [Option.eq_none_iff_forall_ne_some]
    intro rest hrest
    have heq := List.isPrefixOf?_eq_some_iff_append_eq.1 hrest
    exact h ⟨'n' :: 'd' :: rest, heq⟩
  have hhere : afterMatrixEndHere? (c :: cs) = none := by
    unfold afterMatrixEndHere?
    rw [hnone]
    rfl
  rw [afterMatrixEnd?, hhere, Option.none_or]

theorem skips_word (h : '\\' ∉ cs) : Skips cs := by
  intro rest
  induction cs with
  | nil => rfl
  | cons c cs ih =>
    rw [List.mem_cons, not_or] at h
    rw [List.cons_append, afterMatrixEnd?_cons, ih h.2]
    exact fun hbegins => h.1 (List.cons_prefix_cons.1 hbegins).1

theorem skips_command {c : Char} (hc : c ∉ ['\\', 'e']) (h : '\\' ∉ cs) :
    Skips ('\\' :: c :: cs) := by
  simp only [List.mem_cons, List.not_mem_nil, or_false, not_or] at hc
  have hword : Skips (c :: cs) := skips_word (by simp [Ne.symm hc.1, h])
  intro rest
  rw [List.cons_append, List.cons_append, afterMatrixEnd?_cons]
  · exact hword rest
  · exact fun hbegins => hc.2 (List.cons_prefix_cons.1 (List.cons_prefix_cons.1 hbegins).2).1.symm

theorem skips_isSigned (h : IsSigned cs) : Skips cs := by
  have hnone : '\\'.isDigit = false ∧ '\\' ∉ ['-', '.'] := by decide
  refine skips_word fun hmem => ?_
  rcases mem_of_isSigned h hmem with hdigit | hsign
  · rw [hnone.1] at hdigit
    cases hdigit
  · exact hnone.2 hsign

theorem skips_number (s : Settings) (x : Float) : Skips (number s x).toList := by
  rcases number_cases s x with hfigure | hspelled
  · generalize (number s x).toList = cs at hfigure
    cases hfigure with
    | plain h => exact skips_isSigned h
    | scientific h e =>
      have hblank : Skips [' '] := skips_word (by decide)
      have hpower : Skips " \\times 10^\x7b".toList :=
        composes_skips.append hblank (skips_command (c := 't') (by decide) (by decide))
      have hint : Skips ((toString e).toList ++ ['\x7d']) := by
        refine skips_word fun hmem => ?_
        rcases List.mem_append.1 hmem with hmem | hmem
        · rcases mem_toString_int hmem with hdigit | hminus
          · exact absurd hdigit (by decide)
          · exact absurd hminus (by decide)
        · exact absurd hmem (by decide)
      rw [List.append_assoc]
      exact composes_skips.append (skips_isSigned h) (composes_skips.append hpower hint)
  · simp only [spelledOut, List.mem_cons, List.not_mem_nil, or_false] at hspelled
    rcases hspelled with htext | htext | htext
    · rw [htext]
      exact skips_word (by decide)
    · rw [htext]
      exact skips_word (by decide)
    · rw [htext]
      exact skips_command (c := 'm') (by decide) (by decide)

theorem skips_row : Skips " \\\\ ".toList := by
  intro rest
  change afterMatrixEnd? (' ' :: '\\' :: '\\' :: ' ' :: rest) = _
  rw [afterMatrixEnd?_cons, afterMatrixEnd?_cons, afterMatrixEnd?_cons, afterMatrixEnd?_cons]
  all_goals simp [List.cons_prefix_cons]

theorem afterMatrixEnd?_end (rest : List Char) :
    afterMatrixEnd? ("\\end\x7bbmatrix\x7d".toList ++ rest) = some rest := rfl

section

variable {texts : List String} (h : ∀ text ∈ texts, ∃ s x, text = number s x) (rest : List Char)

include h

theorem afterValue_row :
    afterValue (' ' :: ((elementsText false texts).toList ++ rest)) = dropSpaces rest := by
  have hinner : ∀ c ∈ (", ".intercalate texts).toList, c ∉ ['[', ']'] := by
    refine Composes.intercalate (P := fun cs => ∀ c ∈ cs, c ∉ ['[', ']'])
      ⟨by simp, fun h h' c hc => (List.mem_append.1 hc).elim (h c) (h' c)⟩ (by decide)
      fun text htext => ?_
    obtain ⟨s, x, rfl⟩ := h text htext
    exact not_mem_number s x
  have harray : afterArray? 0 ('[' :: ((", ".intercalate texts).toList ++ ']' :: rest)) =
      some rest := by
    rw [afterArray?, if_pos rfl, afterArray?_append hinner, afterArray?, if_neg (by decide),
      if_pos rfl, if_pos (by decide)]
  have htext : (elementsText false texts).toList ++ rest =
      '[' :: ((", ".intercalate texts).toList ++ ']' :: rest) := by
    simp [elementsText]
  have htrim : trimStart (' ' :: '[' :: ((", ".intercalate texts).toList ++ ']' :: rest)) =
      '[' :: ((", ".intercalate texts).toList ++ ']' :: rest) := rfl
  unfold afterValue
  rw [htext]
  simp only [htrim, harray, Option.getD_some]

theorem afterValue_column :
    afterValue (' ' :: ((elementsText true texts).toList ++ rest)) = dropSpaces rest := by
  have hinner : Skips (" \\\\ ".intercalate texts).toList := by
    refine composes_skips.intercalate skips_row fun text htext => ?_
    obtain ⟨s, x, rfl⟩ := h text htext
    exact skips_number s x
  have hbegin : Skips "\\begin\x7bbmatrix\x7d".toList :=
    skips_command (c := 'b') (by decide) (by decide)
  have hend : afterMatrixEnd? ("\\begin\x7bbmatrix\x7d".toList ++
      ((" \\\\ ".intercalate texts).toList ++
        ("\\end\x7bbmatrix\x7d".toList ++ rest))) = some rest := by
    rw [hbegin, hinner, afterMatrixEnd?_end]
  have htext : (elementsText true texts).toList ++ rest =
      "\\begin\x7bbmatrix\x7d".toList ++ ((" \\\\ ".intercalate texts).toList ++
        ("\\end\x7bbmatrix\x7d".toList ++ rest)) := by
    simp [elementsText]
  have htrim : ∀ more, trimStart (' ' :: ("\\begin\x7bbmatrix\x7d".toList ++ more)) =
      "\\begin\x7bbmatrix\x7d".toList ++ more := fun more => rfl
  have hmatrix : ∀ more, "\\begin".toList.isPrefixOf
      ("\\begin\x7bbmatrix\x7d".toList ++ more) = true := fun more => rfl
  unfold afterValue
  rw [htext]
  simp only [htrim]
  split
  · rename_i heq
    cases heq
  · rw [hmatrix, if_pos rfl, hend, Option.getD_some]

/-- An array is passed over up to the bracket or the end that closes it. -/
theorem afterValue_elements (column : Bool) :
    afterValue (' ' :: ((elementsText column texts).toList ++ rest)) = dropSpaces rest := by
  cases column with
  | false => exact afterValue_row h rest
  | true => exact afterValue_column h rest

end

/-! ## Units -/

/-- What is rendered behind the numbers of a value. -/
def unitTail (r : Rendering) (p : UnitProduct) : List Char :=
  if p.isOne then []
  else "\\ ".toList ++ ("\\mathrm".toList ++ '\x7b' :: ((r.units p).toList ++ ['\x7d']))

theorem toList_withUnits (body : String) :
    (r.withUnits body p).toList = body.toList ++ unitTail r p := by
  unfold Rendering.withUnits unitTail
  split <;> simp

theorem stops_unitTail : Stops goesOn (unitTail r p) := by
  unfold unitTail
  split
  · exact stops_nil
  · exact stops_goesOn (by decide) _

theorem afterPowerOfTen?_unitTail : afterPowerOfTen? (unitTail r p) = none := by
  unfold unitTail
  split <;> rfl

/-- A number begins with its sign or a digit. -/
theorem begins_of_isFigure (h : IsFigure cs) :
    ∃ c rest, cs = c :: rest ∧ (c.isDigit ∨ c = '-') := by
  have hsigned : ∀ {cs}, IsSigned cs → ∃ c rest, cs = c :: rest ∧ (c.isDigit ∨ c = '-') := by
    rintro _ ⟨negative, digits, rfl, hdigits⟩
    obtain ⟨d, ds, rfl, hd⟩ := hdigits.begins
    cases negative with
    | true => exact ⟨'-', d :: ds, rfl, .inr rfl⟩
    | false => exact ⟨d, ds, rfl, .inl hd⟩
  cases h with
  | plain h => exact hsigned h
  | scientific h e =>
    obtain ⟨c, rest, rfl, hc⟩ := hsigned h
    exact ⟨c, _, rfl, hc⟩

/-- A number in figures is passed over. -/
theorem afterValue_figure (h : IsFigure cs) :
    afterValue (' ' :: (cs ++ unitTail r p)) = dropSpaces (unitTail r p) := by
  have hnumber := afterNumber?_figure h (stops_unitTail (r := r) (p := p)) afterPowerOfTen?_unitTail
  obtain ⟨c, rest, rfl, hc⟩ := begins_of_isFigure h
  have hblank : isBlank c = false := by
    rcases hc with hc | rfl
    · exact isBlank_of_isDigit hc
    · decide
  have hplain : c ≠ '[' ∧ c ≠ '\\' := by
    refine ⟨?_, ?_⟩ <;> rintro rfl <;> exact absurd hc (by decide)
  have htrim : trimStart (' ' :: c :: (rest ++ unitTail r p)) = c :: (rest ++ unitTail r p) := by
    change trimStart (c :: (rest ++ unitTail r p)) = _
    exact dropWhile_of_stops (stops_cons.2 hblank)
  have hother : "\\begin".toList.isPrefixOf (c :: (rest ++ unitTail r p)) = false := by
    rw [Bool.eq_false_iff]
    intro hbegins
    exact hplain.2 (List.cons_prefix_cons.1 (List.isPrefixOf_iff_prefix.1 hbegins)).1.symm
  rw [List.cons_append] at hnumber ⊢
  unfold afterValue
  simp only [htrim]
  split
  · rename_i heq
    cases heq
    exact absurd rfl hplain.1
  · rw [hother, if_neg Bool.false_ne_true, hnumber, Option.getD_some]

theorem unitContent_command (cs : List Char) :
    unitContent ('\\' :: cs) =
      if UnitText.wrappers.contains (String.ofList (cs.takeWhile Char.isAlpha)) then
        match group? (trimStart (cs.dropWhile Char.isAlpha)) with
        | some (body, _) => trim body
        | none => trim ('\\' :: cs)
      else trim ('\\' :: cs) := rfl

/-- What is in the wrapper counts, and all of the text if the wrapper is not closed. -/
theorem unitContent_mathrm (cs : List Char) :
    unitContent ("\\mathrm".toList ++ '\x7b' :: cs) =
      match untilClosed 0 cs with
      | some (body, _) => trim body
      | none => trim ("\\mathrm".toList ++ '\x7b' :: cs) := by
  have hstops : Stops Char.isAlpha ('\x7b' :: cs) := stops_cons.2 (by decide)
  have hname : ∀ c ∈ "mathrm".toList, c.isAlpha := by decide
  change unitContent ('\\' :: ("mathrm".toList ++ '\x7b' :: cs)) = _
  rw [unitContent_command, takeWhile_append_of_stops hname hstops,
    dropWhile_append_of_stops hname hstops]
  rfl

theorem unitContent_group {body : List Char} (h : untilClosed 0 cs = some (body, rest)) :
    unitContent ("\\mathrm".toList ++ '\x7b' :: cs) = trim body := by
  rw [unitContent_mathrm, h]

theorem unitContent_unclosed (h : untilClosed 0 cs = none) :
    unitContent ("\\mathrm".toList ++ '\x7b' :: cs) =
      trim ("\\mathrm".toList ++ '\x7b' :: cs) := by
  rw [unitContent_mathrm, h]

theorem unitContent_wrapper (h : Closed false cs) (rest : List Char) :
    unitContent ("\\mathrm".toList ++ '\x7b' :: (cs ++ '\x7d' :: rest)) = trim cs :=
  unitContent_group (h.untilClosed rest)

/-- The units are what is inside of the wrapper. -/
theorem unitContent_unitTail (h : Closed false (r.units p).toList) :
    unitContent (dropSpaces (unitTail r p)) =
      if p.isOne then [] else trim (r.units p).toList := by
  unfold unitTail
  split
  · rfl
  · exact unitContent_wrapper h []

/-- The numbers of a value are read as such: a single one must be in figures. -/
def Legible (s : Settings) : Value → Prop
  | .scalar q => number s q.magnitude ∉ spelledOut
  | .array _ => True

/-- Only the units stand behind the numbers of a value. -/
theorem afterValue_value {v : Value} (hempty : v.quantities = [] → p.isOne)
    (hunits : ∀ q ∈ v.quantities, q.units = p) (hlegible : Legible r.settings v) :
    afterValue (' ' :: (r.value v).toList) = dropSpaces (unitTail r p) := by
  cases v with
  | scalar q =>
    obtain rfl : q.units = p := hunits q (List.mem_singleton.2 rfl)
    have hfigure := (number_cases r.settings q.magnitude).resolve_right hlegible
    change afterValue (' ' :: (r.withUnits _ q.units).toList) = _
    rw [toList_withUnits]
    exact afterValue_figure hfigure
  | array elements =>
    have htext : r.value (.array elements) = r.withUnits
        (elementsText (r.settings.arrayColumnThreshold < elements.length)
          (elements.map fun q => number r.settings q.magnitude)) p := by
      cases elements with
      | nil => simp [value, elementsText, Rendering.withUnits, hempty rfl]
      | cons first rest =>
        obtain rfl : first.units = p := hunits first List.mem_cons_self
        simp [value, elementsText]
    rw [htext, toList_withUnits]
    refine afterValue_elements (fun text htext => ?_) _ _
    obtain ⟨q, -, rfl⟩ := List.mem_map.1 htext
    exact ⟨_, _, rfl⟩

/-- What stands behind the numbers of a value is its units, if it has any. -/
theorem unitContent_value {v : Value} (hempty : v.quantities = [] → p.isOne)
    (hunits : ∀ q ∈ v.quantities, q.units = p) (hlegible : Legible r.settings v)
    (hclosed : Closed false (r.units p).toList) :
    unitContent (afterValue (' ' :: (r.value v).toList)) =
      if p.isOne then [] else trim (r.units p).toList := by
  rw [afterValue_value hempty hunits hlegible, unitContent_unitTail hclosed]

/-! ## Ends of values -/

theorem trimEnd_isSigned (h : IsSigned cs) : trimEnd cs = cs := by
  refine trimEnd_of_not_isBlank fun c hc => ?_
  have hsigns : ∀ c ∈ ['-', '.'], isBlank c = false := by decide
  exact (mem_of_isSigned h hc).elim isBlank_of_isDigit (hsigns c)

theorem trimEnd_number (s : Settings) (x : Float) :
    trimEnd (number s x).toList = (number s x).toList := by
  have hspelled : ∀ text ∈ spelledOut, trimEnd text.toList = text.toList := by decide
  rcases number_cases s x with hfigure | hnumber
  · generalize (number s x).toList = cs at hfigure
    cases hfigure with
    | plain h => exact trimEnd_isSigned h
    | scientific h e =>
      rw [← List.append_assoc, ← List.append_assoc]
      exact trimEnd_concat (by decide) _
  · exact hspelled _ hnumber

theorem trimEnd_elements (column : Bool) (texts : List String) :
    trimEnd (elementsText column texts).toList = (elementsText column texts).toList := by
  cases column with
  | false =>
    have htext : (elementsText false texts).toList =
        '[' :: (", ".intercalate texts).toList ++ [']'] := by simp [elementsText]
    rw [htext]
    exact trimEnd_concat (by decide) _
  | true =>
    have htext : (elementsText true texts).toList = "\\begin\x7bbmatrix\x7d".toList ++
        (" \\\\ ".intercalate texts).toList ++ "\\end\x7bbmatrix".toList ++ ['\x7d'] := by
      simp [elementsText]
    rw [htext]
    exact trimEnd_concat (by decide) _

theorem trimEnd_withUnits {body : String} (h : trimEnd body.toList = body.toList) :
    trimEnd (r.withUnits body p).toList = (r.withUnits body p).toList := by
  rw [toList_withUnits]
  unfold unitTail
  split
  · rw [List.append_nil, h]
  · have hsplit : body.toList ++ ("\\ ".toList ++ ("\\mathrm".toList ++
        '\x7b' :: ((r.units p).toList ++ ['\x7d']))) =
        body.toList ++ ("\\ ".toList ++ ("\\mathrm".toList ++ '\x7b' :: (r.units p).toList)) ++
          ['\x7d'] := by simp
    rw [hsplit]
    exact trimEnd_concat (by decide) _

/-- No blank stands at the end of a rendered value. -/
theorem trimEnd_value (r : Rendering) (v : Value) :
    trimEnd (r.value v).toList = (r.value v).toList := by
  cases v with
  | scalar q => exact trimEnd_withUnits (trimEnd_number _ _)
  | array elements =>
    have hbody := trimEnd_elements (r.settings.arrayColumnThreshold < elements.length)
      (elements.map fun q => number r.settings q.magnitude)
    unfold elementsText at hbody
    simp only [decide_eq_true_eq] at hbody
    unfold Rendering.value
    dsimp only
    split
    · exact hbody
    · exact trimEnd_withUnits hbody

end Worksheet.Result
