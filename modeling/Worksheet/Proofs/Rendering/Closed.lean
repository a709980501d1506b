import Worksheet.Proofs.Rendering.Numbers
import Worksheet.Proofs.Text.Group
import Worksheet.Proofs.UnitProduct.Exponents
import Worksheet.Proofs.UnitTable.Entries
/-!
# Rendered values leave nothing open

Every bracket of a rendered value has its partner, whatever its units are, as long as their symbols
are shown without brackets and backslashes.
-/

namespace Worksheet.Rendering

open Text Number Numeral

variable {silent : Bool}

/-! ## Texts in parts -/

/-- What holds of the empty text and of two texts together holds of any texts together. -/
structure Composes (P : List Char → Prop) : Prop where
  nil : P []
  append : ∀ {cs ds}, P cs → P ds → P (cs ++ ds)

section

variable {P : List Char → Prop}

theorem Composes.flatMap {α : Type} {f : α → List Char} {xs : List α} (hP : Composes P)
    (h : ∀ x ∈ xs, P (f x)) : P (xs.flatMap f) := by
  induction xs with
  | nil => exact hP.nil
  | cons x xs ih =>
    obtain ⟨hx, hxs⟩ := List.forall_mem_cons.1 h
    exact hP.append hx (ih hxs)

theorem Composes.join {texts : List String} (hP : Composes P) (h : ∀ text ∈ texts, P text.toList) :
    P (String.join texts).toList := by
  rw [String.toList_join]
  exact hP.flatMap h

theorem Composes.intercalate {separator : String} {texts : List String} (hP : Composes P)
    (hseparator : P separator.toList) (h : ∀ text ∈ texts, P text.toList) :
    P (separator.intercalate texts).toList := by
  induction texts with
  | nil => exact hP.nil
  | cons text texts ih =>
    obtain ⟨htext, htexts⟩ := List.forall_mem_cons.1 h
    cases texts with
    | nil => simpa using htext
    | cons next texts =>
      rw [String.intercalate_cons_cons, String.toList_append, String.toList_append]
      exact hP.append (hP.append htext hseparator) (ih htexts)

end

theorem composes_closed : Composes (Closed silent) := ⟨.nil, Closed.append⟩

/-! ## Numbers -/

theorem closed_digits {cs : List Char} (h : ∀ c ∈ cs, c.isDigit) : Closed silent cs := by
  refine closed_word fun c hc hmem => ?_
  have hnone : ∀ c ∈ '=' :: delimiters, c.isDigit = false := by decide
  have hdigit := h c hc
  rw [hnone c hmem] at hdigit
  cases hdigit

theorem closed_isSigned {cs : List Char} (h : IsSigned cs) : Closed silent cs := by
  obtain ⟨negative, digits, rfl, hdigits⟩ := h
  have hsign : Closed silent (signText negative) := by
    cases negative <;> exact closed_word (by decide)
  refine hsign.append ?_
  cases hdigits with
  | whole _ hall => exact closed_digits hall
  | decimal _ hall hfraction =>
    have hpoint : Closed silent ['.'] := closed_word (by decide)
    exact (closed_digits hall).append (hpoint.append (closed_digits hfraction))

theorem closed_int (n : Int) : Closed silent (toString n).toList := by
  cases n with
  | ofNat n => exact closed_digits fun _ => isDigit_of_mem_toString
  | negSucc n =>
    have hminus : Closed silent ['-'] := closed_word (by decide)
    rw [toList_toString_negSucc]
    exact hminus.append (closed_digits fun _ => isDigit_of_mem_toString)

theorem closed_isFigure {cs : List Char} (h : IsFigure cs) : Closed silent cs := by
  cases h with
  | plain h => exact closed_isSigned h
  | scientific h e =>
    have hblank : Closed silent [' '] := closed_word (by decide)
    have htimes : Closed silent "\\times 10^".toList := closed_command (by decide) (by decide)
    have hpower := hblank.append (htimes.append (closed_braces (closed_int e)))
    exact (closed_isSigned h).append (by simpa using hpower)

/-- A number is closed, finite or not. -/
theorem closed_number (s : Settings) (x : Float) : Closed silent (number s x).toList := by
  rcases number_cases s x with hfigure | hspelled
  · exact closed_isFigure hfigure
  · simp only [spelledOut, List.mem_cons, List.not_mem_nil, or_false] at hspelled
    rcases hspelled with htext | htext | htext
    · rw [htext]
      exact closed_word (by decide)
    · rw [htext]
      exact closed_word (by decide)
    · have hcommand : Closed silent "\\mathrm".toList := closed_command (by decide) (by decide)
      have hname : Closed false "NaN".toList := closed_word (by decide)
      rw [htext]
      exact hcommand.append (closed_braces hname)

/-! ## Units -/

/-- What holds of the factors of a product holds of the product, in every layout. -/
theorem units_of_factors {P : List Char → Prop} {r : Rendering} {p : UnitProduct}
    (hP : Composes P) (hone : P ['1']) (hdot : P dot.toList) (hslash : P ['/'])
    (hgroup : ∀ {cs}, P cs → P ('(' :: (cs ++ [')'])))
    (hfactor : ∀ f ∈ p.factors, ∀ e, P (r.factor f.1 e).toList) : P (r.units p).toList := by
  have habove : ∀ text ∈ p.numerator.map (fun f => r.factor f.1 f.2), P text.toList := by
    intro text htext
    obtain ⟨f, hf, rfl⟩ := List.mem_map.1 htext
    exact hfactor f (List.mem_filter.1 hf).1 f.2
  have hbelow : ∀ text ∈ p.denominator.map (fun f => r.factor f.1 (-f.2)), P text.toList := by
    intro text htext
    obtain ⟨f, hf, rfl⟩ := List.mem_map.1 htext
    exact hfactor f (List.mem_filter.1 hf).1 (-f.2)
  have hnumerator : P (if (p.numerator.map fun f => r.factor f.1 f.2).isEmpty then
      "1" else dot.intercalate (p.numerator.map fun f => r.factor f.1 f.2)).toList := by
    split
    · exact hone
    · exact hP.intercalate hdot habove
  unfold units
  split
  · refine hP.intercalate hdot fun text htext => ?_
    obtain ⟨f, hf, rfl⟩ := List.mem_map.1 htext
    rcases List.mem_append.1 hf with hf | hf
    · exact hfactor f (List.mem_filter.1 hf).1 f.2
    · exact hfactor f (List.mem_filter.1 hf).1 f.2
  · dsimp only
    split
    · have hdenominator := hP.append hslash (hgroup (hP.intercalate hdot hbelow))
      have hwhole := hP.append hnumerator hdenominator
      simpa using hwhole
    · rw [String.toList_append]
      refine hP.append hnumerator (hP.join fun text htext => ?_)
      obtain ⟨factor, hf, rfl⟩ := List.mem_map.1 htext
      rw [String.toList_append]
      exact hP.append hslash (hbelow factor hf)

/-- A symbol is shown without brackets and backslashes. -/
def IsBare (symbol : String) : Prop := ∀ c ∈ symbol.toList, c ∉ delimiters

instance (symbol : String) : Decidable (IsBare symbol) :=
  List.decidableBAll (fun c => c ∉ delimiters) symbol.toList

theorem IsBare.append {symbol other : String} (h : IsBare symbol) (h' : IsBare other) :
    IsBare (symbol ++ other) := by
  intro c hc
  rw [String.toList_append] at hc
  exact (List.mem_append.1 hc).elim (h c) (h' c)

theorem closed_symbolText {symbol : String} (h : IsBare symbol) :
    Closed false (symbolText symbol).toList := by
  unfold symbolText
  rw [String.toList_ofList]
  refine composes_closed.flatMap fun c hc => ?_
  split
  · exact closed_command (by decide) (by decide)
  split
  · exact closed_command (by decide) (by decide)
  split
  · exact closed_command (by decide) (by decide)
  split
  · have hcircle : Closed false "\\circ".toList := closed_command (by decide) (by decide)
    have hraised : Closed false ['^'] := closed_word (by decide)
    exact hraised.append (closed_braces hcircle)
  · exact .char (h c hc) nofun .nil

variable {r : Rendering} {p : UnitProduct}

theorem closed_factor {symbol : String}
    (h : Closed false (symbolText (r.table.displaySymbol symbol)).toList) (e : Int) :
    Closed false (r.factor symbol e).toList := by
  unfold factor
  dsimp only
  split
  · exact h
  · have hraised : Closed false ['^'] := closed_word (by decide)
    have hexponent := h.append (hraised.append
      (closed_braces (closed_int e)))
    simpa using hexponent

theorem closed_units
    (h : p.Over fun s => Closed false (symbolText (r.table.displaySymbol s)).toList) :
    Closed false (r.units p).toList :=
  units_of_factors composes_closed (closed_word (by decide))
    (@closed_command _ "cdot ".toList (by decide) (by decide)) (closed_word (by decide))
    (closed_group (by decide)) fun f hf e => closed_factor (h f hf) e

/-! ## Values -/

theorem closed_withUnits {body : String} (hbody : Closed silent body.toList)
    (h : p.Over fun s => Closed false (symbolText (r.table.displaySymbol s)).toList) :
    Closed silent (r.withUnits body p).toList := by
  unfold withUnits
  split
  · exact hbody
  · have hblank : Closed silent ['\\', ' '] := closed_command (by decide) (by decide)
    have hwrapper : Closed silent "\\mathrm".toList := closed_command (by decide) (by decide)
    have hunits := hblank.append (hwrapper.append
      (closed_braces (closed_units h)))
    have hwhole := hbody.append hunits
    simpa using hwhole

/-- The numbers of an array, in a line or in a column. -/
theorem closed_elements (r : Rendering) (elements : List Quantity) :
    Closed silent (if r.settings.arrayColumnThreshold < elements.length then
      "\\begin\x7bbmatrix\x7d" ++
        " \\\\ ".intercalate (elements.map fun q => number r.settings q.magnitude) ++
        "\\end\x7bbmatrix\x7d"
      else "[" ++ ", ".intercalate (elements.map fun q => number r.settings q.magnitude) ++
        "]").toList := by
  have hnumbers : ∀ {silent : Bool}, ∀ text ∈ elements.map fun q => number r.settings q.magnitude,
      Closed silent text.toList := by
    intro silent text htext
    obtain ⟨q, -, rfl⟩ := List.mem_map.1 htext
    exact closed_number _ _
  split
  · have hmatrix : Closed false "bmatrix".toList := closed_word (by decide)
    have hname : Closed silent "\x7bbmatrix\x7d".toList := closed_braces hmatrix
    have hbegin : Closed silent "\\begin".toList := closed_command (by decide) (by decide)
    have hend : Closed silent "\\end".toList := closed_command (by decide) (by decide)
    have hrow : Closed silent " \\\\ ".toList := .char (by decide) (fun _ => by decide) (.row .nil)
    have hrows := composes_closed.intercalate hrow hnumbers
    have hwhole := hbegin.append (hname.append (hrows.append (hend.append hname)))
    simpa using hwhole
  · have hcomma : Closed false ", ".toList := closed_word (by decide)
    have hline := composes_closed.intercalate hcomma hnumbers
    have hwhole : Closed silent _ := closed_group (show ('[', ']') ∈ brackets by decide) hline
    simpa using hwhole

/-- The units of a table that shows all of them bare are closed. -/
theorem closed_symbols {t : UnitTable} (ht : t.All fun entry => IsBare entry.display)
    (h : p.Over fun s => t.isUnit s) :
    p.Over fun s => Closed false (symbolText (t.displaySymbol s)).toList := by
  intro f hf
  obtain ⟨entry, hentry⟩ := Option.isSome_iff_exists.1 (h f hf)
  refine closed_symbolText ?_
  unfold UnitTable.displaySymbol
  rw [hentry]
  exact ht.lookup hentry

/-- A value is closed if the symbols of its units are. -/
theorem closed_value {v : Value} (h : ∀ q ∈ v.quantities,
      q.units.Over fun s => Closed false (symbolText (r.table.displaySymbol s)).toList) :
    Closed silent (r.value v).toList := by
  cases v with
  | scalar q => exact closed_withUnits (closed_number _ _) (h q (List.mem_singleton.2 rfl))
  | array elements =>
    have hbody := @closed_elements silent r elements
    unfold value
    dsimp only
    cases elements with
    | nil => exact hbody
    | cons first rest => exact closed_withUnits hbody (h first List.mem_cons_self)

end Worksheet.Rendering
