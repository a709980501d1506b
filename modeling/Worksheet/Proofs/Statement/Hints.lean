import Worksheet.Proofs.Rendering.Evaluated
import Worksheet.Proofs.Statement.Recovered
/-!
# Which tables have their units recovered

The units behind a rendered value are recovered in exactly those tables that read every product
back: those whose symbols keep their spelling when they are written.
-/

namespace Worksheet

open Text Scan Rendering

namespace Result

variable {settings : Settings} {v : Value}

/-! ## Numbers -/

theorem not_mem_spelledOut {text : String} (h : IsFigure text.toList) : text ∉ spelledOut := by
  have hletters : ∀ text ∈ spelledOut, ¬∀ c ∈ text.toList, c.isDigit ∨ c ∈ figureSigns := by decide
  exact fun hmem => hletters text hmem fun c hc => mem_of_isFigure h hc

/-- Finite numbers are shown in figures, unless there is no bound from which on numbers are shown with
a power of ten. -/
theorem legible_of_isFinite (hfinite : ∀ q ∈ v.quantities, q.magnitude.isFinite)
    (hlegible : settings.scientificAbove.isNaN → Legible settings v) : Legible settings v := by
  cases hbound : settings.scientificAbove.isNaN with
  | true => exact hlegible hbound
  | false =>
    cases v with
    | scalar q =>
      have hq := hfinite q (List.mem_singleton.2 rfl)
      exact not_mem_spelledOut (isFigure_number hq (.inl hbound))
    | array qs => trivial

/-- What is recovered from a rendered value is read as its units, and nothing is recovered if it has
none. -/
def Tells (r : Rendering) (p : UnitProduct) (v : Value) : Prop :=
  match hint? (' ' :: (r.value v).toList) none with
  | none => p = .one
  | some hint => p ≠ .one ∧ r.table.parse hint = .ok p

instance (r : Rendering) (p : UnitProduct) (v : Value) : Decidable (Tells r p v) :=
  match h : hint? (' ' :: (r.value v).toList) none with
  | none => decidable_of_iff (p = .one) (by rw [Tells, h])
  | some hint => decidable_of_iff (p ≠ .one ∧ r.table.parse hint = .ok p) (by rw [Tells, h])

theorem Tells.parse {r : Rendering} {p : UnitProduct} (h : Tells r p v) (hne : p ≠ .one) :
    ∃ hint, hint? (' ' :: (r.value v).toList) none = some hint ∧ r.table.parse hint = .ok p := by
  unfold Tells at h
  split at h
  · exact absurd h hne
  · rename_i hint hhint
    exact ⟨hint, hhint, h.2⟩

theorem toList_of_hint? {tail : List Char} {hint : String} (h : hint? tail none = some hint) :
    hint.toList = unitContent (afterValue tail) := by
  simp only [hint?, Option.bind_none] at h
  split at h
  · cases h
  · cases h
    exact String.toList_ofList

end Result

namespace UnitTable

open Result

variable {t : UnitTable} {settings : Settings} {symbol : String} {p : UnitProduct} {v : Value}

/-- From every value of finite numbers in the same units the units are recovered, if a single number
is shown in figures. -/
def Recovers (t : UnitTable) : Prop :=
  ∀ (settings : Settings) (p : UnitProduct) (v : Value), v.quantities ≠ [] →
    (∀ q ∈ v.quantities, q.units = p ∧ q.magnitude.isFinite) →
    (settings.scientificAbove.isNaN → Legible settings v) → p.Over t.IsCanonical →
    (∀ f ∈ p.factors, IsExponent f.2) → Tells ⟨t, settings⟩ p v

theorem tells_of_keepsSpelling (hp : p.Over fun s => t.ShowsWord s ∧ t.KeepsSpelling s)
    (hnonempty : v.quantities ≠ []) (hunits : ∀ q ∈ v.quantities, q.units = p)
    (hlegible : Legible settings v) (hexponents : ∀ f ∈ p.factors, IsExponent f.2) :
    Tells ⟨t, settings⟩ p v := by
  have hmarkup : (none : Option (List Char)).bind Markup.hint? = none := rfl
  unfold Tells
  by_cases hone : p = .one
  · rw [hint?_value_one (r := ⟨t, settings⟩) hmarkup (fun q hq => (hunits q hq).trans hone) hlegible]
    exact hone
  · have hreads : p.Over (ReadsBack ⟨t, settings⟩) := hp.mono fun _ h => readsBack h.1 h.2
    have hclosed : Closed false (units ⟨t, settings⟩ p).toList :=
      closed_units (hp.mono fun _ h => closed_display h.1 h.2)
    obtain ⟨hint, hhint, hparse⟩ :=
      hint?_value_parse (r := ⟨t, settings⟩) hmarkup hnonempty hunits hlegible hclosed hone hreads
        hexponents
    rw [hhint]
    exact ⟨hone, hparse⟩

/-! ## A symbol in its wrapper -/

/-- What is found in the wrapper around a decorated letter cannot be read, wherever the wrapper
seems to end. -/
theorem not_scannable_unitContent {letter : String} (hletter : letter ∈ greekLetters)
    {rest : List Char} (hrest : Decorated rest) :
    ¬Scannable { mode := .units } 0 (UnitText.plain (unitContent ("\\mathrm".toList ++
      '\x7b' :: ('\\' :: letter.toList ++ (rest ++ ['\x7d']))))) := by
  have hclosed := closed_greek hletter
  rw [toList_symbolText_greek hletter] at hclosed
  have hbehind := hrest.append ['\x7d']
  have huntil := hclosed.untilClosed_append 0 (rest ++ ['\x7d'])
  cases hgroup : untilClosed 0 (rest ++ ['\x7d']) with
  | none =>
    -- the wrapper does not end, and the text is read with it
    rw [hgroup, Option.map_none] at huntil
    have hname : ∀ c ∈ "mathrm".toList, c.isAlpha := by decide
    have hwhole : trim ("\\mathrm".toList ++ '\x7b' :: ('\\' :: letter.toList ++ (rest ++ ['\x7d']))) =
        "\\mathrm".toList ++ '\x7b' :: ('\\' :: letter.toList ++ (rest ++ ['\x7d'])) := by
      have hend := trimEnd_concat (c := '\x7d') (by decide)
        ("\\mathrm".toList ++ '\x7b' :: ('\\' :: letter.toList ++ rest))
      rw [List.append_assoc, List.cons_append, List.append_assoc] at hend
      exact hend
    have hplain : UnitText.plain ("\\mathrm".toList ++
        '\x7b' :: ('\\' :: letter.toList ++ (rest ++ ['\x7d']))) =
        '\x7b' :: UnitText.plain ('\\' :: (letter.toList ++ (rest ++ ['\x7d']))) := by
      have hcommand := UnitText.plain_command (by decide) hname (stops_cons.2 (by decide) :
        Stops Char.isAlpha ('\x7b' :: ('\\' :: letter.toList ++ (rest ++ ['\x7d']))))
      exact hcommand.trans (UnitText.plain_cons (by decide) _)
    rw [unitContent_unclosed huntil, hwhole, hplain]
    exact fun h => not_scannable_greek rfl hletter hbehind (h.behind_sign rfl)
  | some found =>
    obtain ⟨body, after⟩ := found
    rw [hgroup, Option.map_some] at huntil
    have hbody : Decorated body := by
      rw [← append_of_untilClosed hgroup] at hbehind
      exact hbehind.of_append (by decide)
    have hcontent : trim ('\\' :: letter.toList ++ body) =
        '\\' :: (letter.toList ++ trimEnd body) :=
      trimEnd_append_of_trimmed (trimEnd_greek hletter) body
    rw [unitContent_group huntil, hcontent]
    exact not_scannable_greek rfl hletter hbody.trimEnd

/-- A symbol that is read back from its wrapper keeps its spelling. -/
theorem keepsSpelling_of_unitContent (hshows : t.ShowsWord symbol) {hint : String}
    (hhint : hint.toList = unitContent ("\\mathrm".toList ++
      '\x7b' :: ((symbolText (t.displaySymbol symbol)).toList ++ ['\x7d'])))
    (hparse : t.parse hint = .ok (.unit symbol)) : t.KeepsSpelling symbol := by
  intro hcommand
  obtain ⟨letter, hletter, more, hdisplay, hmore⟩ := hshows.isIdent.greek_append hcommand
  rw [toList_symbolText, hdisplay, written_greek hletter, List.cons_append, List.append_assoc,
    ← List.cons_append] at hhint
  rcases hmore with rfl | hmore
  · have hclosed := closed_greek hletter
    rw [toList_symbolText_greek hletter] at hclosed
    have hsame : hint = symbolText ("\\" ++ letter) := by
      apply String.toList_inj.1
      rw [hhint, toList_symbolText_greek hletter]
      exact (unitContent_wrapper hclosed []).trans (trimEnd_greek hletter)
    refine ⟨letter, hletter, ?_, finds_of_parse hletter (hsame ▸ hparse)⟩
    apply String.toList_inj.1
    rw [hdisplay, String.toList_append, List.append_nil]
    rfl
  · have hscannable := scannable_of_parse hparse
    rw [hhint] at hscannable
    exact absurd hscannable (not_scannable_unitContent hletter hmore.written)

/-! ## Tables -/

/-- One of a unit. -/
def oneOf (symbol : String) : Value := .scalar ⟨1, .unit symbol, .unit symbol, 1, 0⟩

theorem oneOf_finite (symbol : String) : ∀ q ∈ (oneOf symbol).quantities,
    q.units = .unit symbol ∧ q.magnitude.isFinite := by
  have hfinite : (1 : Float).isFinite := by decide
  intro q hq
  obtain rfl := List.mem_singleton.1 hq
  exact ⟨rfl, hfinite⟩

theorem oneOf_legible (symbol : String) : Legible {} (oneOf symbol) := by
  have hone : number {} 1 ∉ spelledOut := by decide
  exact hone

/-- The symbol of one of a unit is in a wrapper. -/
theorem afterValue_oneOf (t : UnitTable) (symbol : String) :
    afterValue (' ' :: (value ⟨t, {}⟩ (oneOf symbol)).toList) = "\\mathrm".toList ++
      '\x7b' :: ((symbolText (t.displaySymbol symbol)).toList ++ ['\x7d']) := by
  rw [afterValue_value (r := ⟨t, {}⟩) (v := oneOf symbol) nofun
    (fun q hq => (oneOf_finite symbol q hq).1) (oneOf_legible symbol), unitTail, units_unit]
  rfl

/-- A table whose units are shown as words has them recovered from every value, exactly if all words
keep their spelling. -/
theorem recovers_iff (ht : t.ShowsWords) :
    t.Recovers ↔ ∀ symbol, t.IsCanonical symbol → t.KeepsSpelling symbol := by
  constructor
  · intro h symbol hsymbol
    have hone : UnitProduct.unit symbol ≠ .one :=
      fun heq => nomatch congrArg UnitProduct.factors heq
    have htells := h {} (.unit symbol) (oneOf symbol) nofun (oneOf_finite symbol)
      (fun _ => oneOf_legible symbol) (UnitProduct.over_unit hsymbol) (by
        intro f hf
        obtain rfl : f = (symbol, 1) := List.mem_singleton.1 hf
        exact isExponent_one)
    obtain ⟨hint, hhint, hparse⟩ := htells.parse hone
    refine keepsSpelling_of_unitContent (ht symbol hsymbol) ?_ hparse
    rw [toList_of_hint? hhint, afterValue_oneOf]
  · intro h settings p v hnonempty hv hlegible hp hexponents
    refine tells_of_keepsSpelling (hp.mono fun s hs => ⟨ht s hs, h s hs⟩) hnonempty
      (fun q hq => (hv q hq).1) ?_ hexponents
    exact legible_of_isFinite (fun q hq => (hv q hq).2) hlegible

/-- The standard table has its units recovered. -/
theorem standard_recovers : standard.ShowsWords ∧ standard.Recovers :=
  ⟨standard_showsWords, (recovers_iff standard_showsWords).2 fun _ => standard_keepsSpelling⟩

/-- Behind five of a unit whose command stands for a sign of units is the command, which is read as
the sign. -/
theorem not_tells_mu :
    build [{ name := "\\mu" }] = .ok muTable ∧ muTable.ShowsWords ∧
      Showable muTable (.unit "\\mu") fiveMu ∧ ¬Tells ⟨muTable, {}⟩ (.unit "\\mu") fiveMu := by
  have hall : ∀ e ∈ muTable.entries, muTable.ShowsWord e.2.symbol := by decide
  exact ⟨rfl, showsWords_of_all hall, by decide, by decide +kernel⟩

end UnitTable

end Worksheet
