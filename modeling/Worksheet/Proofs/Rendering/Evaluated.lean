import Worksheet.Proofs.Quantity.Arithmetic
import Worksheet.Proofs.Rendering.Values
import Worksheet.Proofs.UnitTable.Listing
import Worksheet.Proofs.UnitTable.RoundTrip
import Worksheet.Registry.Basic
/-!
# Rendered values evaluate to values like them

A rendered value is an expression, and its value has the shape and the units of the rendered one. A
number may come out infinite, since the rendered digits are rounded; nothing else goes wrong.
-/

namespace Worksheet.Rendering

open Text Number Worksheet.Expr

variable {t : UnitTable} {settings : Settings} {symbol : String} {p : UnitProduct} {v : Value}

/-! ## Symbols -/

theorem isBare_of_isWord (h : Scan.IsWord symbol.toList ∨ symbol.toList = ['%']) :
    IsBare symbol := by
  intro c hc hmem
  have hbreaks : ∀ c ∈ delimiters, c ∈ Scan.nameBreaks ∧ c ∉ ['%'] := by decide
  rcases h with h | h
  · exact h.not_mem (hbreaks c hmem).1 hc
  · exact (hbreaks c hmem).2 (h ▸ hc)

theorem closed_greek {letter : String} (h : letter ∈ Scan.greekLetters) :
    Closed false (symbolText ("\\" ++ letter)).toList := by
  have hletters : ∀ l ∈ Scan.greekLetters,
      l.toList ≠ [] ∧ ∀ c ∈ l.toList, c ∉ 'q' :: '=' :: delimiters := by
    decide
  obtain ⟨hne, hplain⟩ := hletters letter h
  rw [Scan.toList_symbolText_greek h]
  exact closed_command hne hplain

/-- What shows a unit as a word that keeps its spelling leaves no bracket open. -/
theorem closed_display (hshows : t.ShowsWord symbol) (hkeeps : t.KeepsSpelling symbol) :
    Closed false (symbolText (t.displaySymbol symbol)).toList := by
  by_cases hcommand : '\\' ∈ (t.displaySymbol symbol).toList
  · obtain ⟨letter, hletter, hdisplay, -⟩ := hkeeps hcommand
    rw [hdisplay]
    exact closed_greek hletter
  · exact closed_symbolText (isBare_of_isWord (hshows.isWord hcommand))

/-! ## Values -/

/-- A value that a table can show: finite numbers in the same units, whose symbols are those of the
table and whose exponents have opposites. -/
structure Showable (t : UnitTable) (p : UnitProduct) (v : Value) : Prop where
  nonempty : v.quantities ≠ []
  units : ∀ q ∈ v.quantities, q.In p
  canonical : p.Over t.IsCanonical
  exponents : ∀ f ∈ p.factors, IsExponent f.2
  accepted : (t.quantity? 1 p).isSome
  finite : ∀ q ∈ v.quantities, q.magnitude.isFinite

theorem showable_iff : Showable t p v ↔ v.quantities ≠ [] ∧ (∀ q ∈ v.quantities, q.In p) ∧
    p.Over t.IsCanonical ∧ (∀ f ∈ p.factors, IsExponent f.2) ∧ (t.quantity? 1 p).isSome ∧
    ∀ q ∈ v.quantities, q.magnitude.isFinite :=
  ⟨fun ⟨h1, h2, h3, h4, h5, h6⟩ => ⟨h1, h2, h3, h4, h5, h6⟩,
    fun ⟨h1, h2, h3, h4, h5, h6⟩ => ⟨h1, h2, h3, h4, h5, h6⟩⟩

instance (t : UnitTable) (p : UnitProduct) (v : Value) : Decidable (Showable t p v) :=
  decidable_of_iff _ showable_iff.symm

/-- The rendered value is an expression wherever it is read, and evaluates to a value of the same
shape and size in the same units, or a number becomes infinite. -/
def EvaluatesBack (r : Rendering) (p : UnitProduct) (v : Value) : Prop :=
  ∀ (registry : Registry) (parameters : List Name) (env : Environment),
    env.table = r.table →
    ∃ e, Expr.parse (registry.scope r.table parameters) (r.value v) = .ok (some e) ∧
      ((∃ error, (e.eval env).result.1 = .error error ∧ error.code = .notFinite) ∨
        ∃ w, (e.eval env).result.1 = .ok w ∧ w.Fits v.isArray v.size (Quantity.In p))

theorem value_array {r : Rendering} {elements : List Quantity} (hne : elements ≠ [])
    (h : ∀ q ∈ elements, q.In p) : r.value (.array elements) =
      r.withUnits (elementsText (r.settings.arrayColumnThreshold < elements.length)
        (elements.map fun q => number r.settings q.magnitude)) p := by
  obtain ⟨first, rest, rfl⟩ := List.exists_cons_of_ne_nil hne
  have hfirst : first.units = p := h first List.mem_cons_self
  simp [value, elementsText, hfirst]

/-- The numbers of a value are read as its shape. -/
theorem readsAs_value {r : Rendering} (rules : ScanRules) (hne : v.quantities ≠ [])
    (hunits : ∀ q ∈ v.quantities, q.In p)
    (hfigures : ∀ q ∈ v.quantities, IsFigure (number r.settings q.magnitude).toList) :
    ∃ body, r.value v = r.withUnits body p ∧ ReadsAs rules body.toList v.isArray v.size := by
  cases v with
  | scalar q =>
    have hq := List.mem_singleton.2 (Eq.refl q)
    have hin : q.units = p := hunits q hq
    refine ⟨number r.settings q.magnitude, ?_, readsAs_figure rules (hfigures q hq)⟩
    rw [← hin]
    rfl
  | array elements =>
    refine ⟨_, value_array hne hunits, ?_⟩
    have hlength : (Value.array elements).size =
        (elements.map fun q => number r.settings q.magnitude).length :=
      (List.length_map _).symm
    rw [hlength]
    refine readsAs_elements rules _ (by simpa [Value.quantities] using hne) fun text htext => ?_
    obtain ⟨q, hq, rfl⟩ := List.mem_map.1 htext
    exact hfigures q hq

/-- A value in units that keep their spelling evaluates back, with any settings. -/
theorem evaluatesBack_of_keepsSpelling (ht : t.ShowsWords) (hv : Showable t p v)
    (hkeeps : p.Over t.KeepsSpelling) (hbounds : ∀ q ∈ v.quantities, Bounds settings q.magnitude) :
    EvaluatesBack ⟨t, settings⟩ p v := by
  intro registry parameters env henv
  obtain ⟨q, hquantity⟩ := Option.isSome_iff_exists.1 hv.accepted
  have hsymbols : p.Over fun symbol => t.ShowsWord symbol ∧ t.KeepsSpelling symbol :=
    fun f hf => ⟨ht f.1 (hv.canonical f hf), hkeeps f hf⟩
  have hreads : p.Over (ReadsBack ⟨t, settings⟩) :=
    hsymbols.mono fun _ h => UnitTable.readsBack h.1 h.2
  have hclosed : p.Over fun symbol => Closed false (symbolText (t.displaySymbol symbol)).toList :=
    hsymbols.mono fun _ h => closed_display h.1 h.2
  obtain ⟨body, htext, hbody⟩ := readsAs_value (r := ⟨t, settings⟩)
    ⟨.equation, t.readsAsUnit⟩ hv.nonempty hv.units
    fun q hq => isFigure_number (hv.finite q hq) (hbounds q hq)
  have hread : ∃ e, GivesIn env v.isArray v.size p e ∧
      Expr.parse (registry.scope t parameters) (withUnits ⟨t, settings⟩ body p) = .ok (some e) :=
    parse_withUnits hbody henv hreads hclosed hv.exponents hquantity
      (UnitTable.quantity?_eq_some hquantity).2.2.1
  obtain ⟨e, he, hparse⟩ := hread
  rw [htext]
  exact ⟨e, hparse, he.eval⟩

/-- Two quantities in kilometres per hour. -/
def speeds : Value :=
  .array ([1, 2.5].map fun x =>
    ⟨x, (UnitProduct.unit "km").div (.unit "h"), .one, 1, 0⟩)

/-- Kilometres per hour in a column are read back as such. -/
theorem evaluatesBack_speeds :
    Showable UnitTable.standard ((UnitProduct.unit "km").div (.unit "h")) speeds ∧
      EvaluatesBack ⟨UnitTable.standard, { arrayColumnThreshold := 1 }⟩
        ((UnitProduct.unit "km").div (.unit "h")) speeds := by
  have hshowable : Showable UnitTable.standard ((UnitProduct.unit "km").div (.unit "h")) speeds := by
    rw [UnitTable.standard_eq_listed]
    decide +kernel
  have hkeeps : ((UnitProduct.unit "km").div (.unit "h")).Over UnitTable.standard.KeepsSpelling :=
    hshowable.canonical.mono fun _ => UnitTable.standard_keepsSpelling
  exact ⟨hshowable, evaluatesBack_of_keepsSpelling UnitTable.standard_showsWords hshowable hkeeps
    fun _ _ => .inl (by decide)⟩

open UnitTable (muTable)

/-- Five of a unit whose command stands for a sign of units. -/
def fiveMu : Value := .scalar ⟨5, .unit "\\mu", .unit "\\mu", 1, 0⟩

/-- The code that the evaluation of a text fails with. -/
def failure? (env : Environment) (text : String) : Option ErrorCode :=
  match Expr.parse (env.registry.scope env.table []) text with
  | .ok (some e) =>
    match (e.eval env).result.1 with
    | .error error => some error.code
    | .ok _ => none
  | _ => none

/-- They are written with the command, which is read as the sign, and that is no unit. -/
theorem not_evaluatesBack_mu :
    UnitTable.build [{ name := "\\mu" }] = .ok muTable ∧ muTable.ShowsWords ∧
      Showable muTable (.unit "\\mu") fiveMu ∧
      ¬EvaluatesBack ⟨muTable, {}⟩ (.unit "\\mu") fiveMu := by
  have hall : ∀ e ∈ muTable.entries, muTable.ShowsWord e.2.symbol := by decide
  have hshowable : Showable muTable (.unit "\\mu") fiveMu := by decide
  refine ⟨rfl, UnitTable.showsWords_of_all hall, hshowable, fun h => ?_⟩
  have hunknown : failure? ⟨muTable, {}, {}⟩ (value ⟨muTable, {}⟩ fiveMu) = some .unknownUnit := by
    decide +kernel
  obtain ⟨e, hparse, hresult⟩ := h {} [] ⟨muTable, {}, {}⟩ rfl
  unfold failure? at hunknown
  dsimp only at hparse hunknown
  rw [hparse] at hunknown
  dsimp only at hunknown
  rcases hresult with ⟨error, herror, hcode⟩ | ⟨w, hw, -⟩
  · rw [herror] at hunknown
    dsimp only at hunknown
    rw [hcode] at hunknown
    cases hunknown
  · rw [hw] at hunknown
    cases hunknown

end Worksheet.Rendering
