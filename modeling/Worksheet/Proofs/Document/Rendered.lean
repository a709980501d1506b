import Worksheet.Proofs.Document.Run
import Worksheet.Proofs.Quantity.Known
import Worksheet.Proofs.Statement.Clear
import Worksheet.Proofs.UnitTable.Standard
/-!
# Rendered statements

A rendered statement is its lead, then its result, then a markup, and each of these can be told from
the others.
-/

namespace Worksheet.Document

open Statement Rendering Quantity UnitTable Text

variable {d : Document} {bases : String → Prop} {text : String} {p : ParsedStatement} {e : Error}

/-- Works with units that are shown bare, and so do all values that are bound. -/
structure Ready (bases : String → Prop) (d : Document) : Prop where
  integrity : d.table.Integrity bases
  bare : d.table.All fun entry => IsBare entry.display
  known : d.registry.All (Known bases d.table)

theorem ready_of_table {t : UnitTable} (ht : t.Integrity bases)
    (hbare : t.All fun entry => IsBare entry.display) (settings : Settings) :
    Ready bases { table := t, settings } where
  integrity := ht
  bare := hbare
  known _ he := absurd he List.not_mem_nil

theorem ready_fresh (settings : Settings) : (fresh settings).Ready StandardBase :=
  ready_of_table standard_integrity standard_isBare settings

theorem Ready.invariant (hd : d.Ready bases) : Quantity.Invariant d.table (Known bases d.table) :=
  invariant_known hd.integrity

theorem Ready.process (hd : d.Ready bases) (text : String) (hint : Option String) :
    (d.process text hint).2.Ready bases := by
  have htable := process_table d text hint
  have hknown := process_all hd.invariant hd.known text hint
  refine ⟨?_, ?_, ?_⟩
  · rw [htable]
    exact hd.integrity
  · rw [htable]
    exact hd.bare
  · rw [htable]
    exact hknown

/-- It stays so, whatever statements are processed. -/
theorem Ready.processEach (hd : d.Ready bases) (steps : List (String × Option String)) :
    (d.processEach steps).2.Ready bases :=
  processEach_keeps (fun _ text hint h => h.process text hint) hd steps

/-- A value in known units is shown without open groups. -/
theorem Ready.closed (hd : d.Ready bases) {v : Value} (hv : v.All (Known bases d.table)) :
    Closed true (d.rendering.value v).toList :=
  closed_value fun q hq => closed_symbols hd.bare (hv q hq).units

theorem convert_known {t : UnitTable} {target q r : Quantity}
    (htarget : target.Known bases t) (h : convert target q = .ok r) : r.Known bases t := by
  unfold convert at h
  split at h
  · cases h
    exact ⟨htarget.units, htarget.dimension⟩
  · split at h
    · rename_i converted hconverted
      cases h
      obtain ⟨-, rfl⟩ := convertTo?_eq_some hconverted
      exact ⟨htarget.units, htarget.dimension⟩
    · cases h

/-- However a value is shown, it is shown without open groups. -/
theorem Ready.presents (hd : d.Ready bases) {v : Value} (hv : v.All (Known bases d.table))
    {span : Span} {display : Display} {hint : Option String} {shown : String}
    {more : List Diagnostic} (h : d.Presents v span display hint shown more) :
    Closed true shown.toList := by
  cases h with
  | raw => exact hd.closed hv
  | readable =>
      split
      · exact hd.closed (compact_known (r := d.rendering) hd.integrity hv)
      · exact hd.closed hv
  | converted _ known fits =>
      have htarget := known_of_quantity? hd.integrity known
      exact hd.closed (Value.all_of_mapM (fun q r => convert_known htarget) fits)
  | unmet => exact hd.closed (hv.map fun q => hd.invariant.toBase)

theorem Ready.evaluate (hd : d.Ready bases) {f : Fragment} {v : Value} {ws : List Diagnostic}
    (h : d.evaluate f = .ok (v, ws)) : v.All (Known bases d.table) :=
  evaluate_all hd.invariant hd.known h

/-! ## Ends of statements -/

/-- Ends a statement with what its run gave. -/
def conclude (d : Document) (lead : String) (hint : Option String) :
    Except Error Effect → Outcome × Document
  | .ok effect => d.succeed lead hint effect
  | .error e => d.fail lead hint e

theorem process_error (d : Document) (h : Statement.parse text = .error e)
    (hint : Option String) : d.process text hint = d.fail (String.ofList (leadOf text)) none e := by
  unfold process
  rw [h, leadOf_error h]

theorem process_ok (d : Document) (h : Statement.parse text = .ok p) (hint : Option String) :
    d.process text hint = d.conclude p.lead (requestedHint p.statement.display? hint)
      (d.run p.statement (requestedHint p.statement.display? hint)) := by
  unfold process
  rw [h]
  dsimp only
  cases d.run p.statement (requestedHint p.statement.display? hint) with
  | ok effect => rfl
  | error e => rfl

/-- What is shown between a lead and a markup. -/
def resultText : Except Error Effect → List Char
  | .ok effect => ((effect.shown.map fun text => " " ++ text).getD "").toList
  | .error _ => [' ']

/-- A value could not be given in the unit asked for. -/
def Effect.unmet (effect : Effect) : Bool :=
  effect.warnings.any fun w => w.code = .conversionMismatch

/-- Without a value of another dimension, the unit asked for leaves no trace but what is shown. -/
theorem conclude_met {effect : Effect} (h : effect.unmet = false) (d : Document) (lead : String)
    (hint own : Option String) :
    d.conclude lead hint (.ok effect) = d.conclude lead own (.ok effect) := by
  unfold Effect.unmet at h
  unfold conclude succeed
  dsimp only
  rw [h]
  rfl

def markupText (hint : Option String) : Except Error Effect → List Char
  | .ok effect =>
    match effect.warnings with
    | [] => []
    | first :: _ =>
      (Markup.render .warning first.message (if effect.unmet then hint else none)).toList
  | .error e => (Markup.render .error e.message hint).toList

theorem conclude_rendered (d : Document) (lead : String) (hint : Option String)
    (run : Except Error Effect) :
    (d.conclude lead hint run).1.rendered =
      String.ofList (lead.toList ++ resultText run ++ markupText hint run) := by
  rw [← String.toList_inj, String.toList_ofList]
  cases run with
  | error e => simp [conclude, fail, resultText, markupText, Diagnostic.ofError]
  | ok effect =>
      obtain ⟨shown, warnings, registry⟩ := effect
      cases warnings with
      | nil => simp [conclude, succeed, resultText, markupText]
      | cons first rest => simp [conclude, succeed, resultText, markupText, Effect.unmet]

theorem isMarkup_render (severity : Severity) (message : String) (hint : Option String) :
    IsMarkup (Markup.render severity message hint).toList := by
  rw [Markup.render_toList]
  exact .inr (List.prefix_append _ _)

theorem isMarkup_markupText (hint : Option String) (run : Except Error Effect) :
    IsMarkup (markupText hint run) := by
  cases run with
  | error e => exact isMarkup_render _ _ _
  | ok effect =>
      unfold markupText
      dsimp only
      split
      · exact .inl rfl
      · exact isMarkup_render _ _ _

/-- A value that is shown can stand as a result. -/
theorem isResult_shown (hshown : IsShown text) {shown : String} (h : Closed true shown.toList) :
    IsResult text (" " ++ shown).toList where
  blank c hc := by
    rw [String.toList_append] at hc
    cases hc
    rfl
  closed := by
    have hblank : Closed true " ".toList := closed_word (by decide)
    rw [String.toList_append]
    exact hblank.append h
  shown := .inl hshown

/-- What stands behind the lead of a statement that was run is a result. -/
theorem Ready.isResult (hd : d.Ready bases) (hparse : Statement.parse text = .ok p)
    (hint : Option String) : IsResult text (resultText (d.run p.statement hint)) := by
  cases hrun : d.run p.statement hint with
  | error e => exact isResult_blank text
  | ok effect =>
      obtain ⟨statement, lead⟩ := p
      have hyields := run_eq_ok_iff.1 hrun
      dsimp only at hyields
      cases hyields with
      | definition => exact isResult_nil text
      | binding => exact isResult_nil text
      | shownBinding evaluated presented =>
          have hclosed := hd.presents (hd.evaluate evaluated) (present_eq_ok_iff.1 presented)
          exact isResult_shown ⟨_, hparse, Option.some_ne_none _⟩ hclosed
      | display evaluated presented =>
          have hclosed := hd.presents (hd.evaluate evaluated) (present_eq_ok_iff.1 presented)
          exact isResult_shown ⟨_, hparse, Option.some_ne_none _⟩ hclosed

/-- A statement is rendered as its lead with a result and a markup behind it. -/
theorem Ready.rendered (hd : d.Ready bases) (text : String) (hint : Option String) :
    ∃ result markup, IsResult text result ∧ IsMarkup markup ∧
      (d.process text hint).1.rendered = String.ofList (leadOf text ++ result ++ markup) := by
  cases hparse : Statement.parse text with
  | error e =>
      have hrendered := d.conclude_rendered (String.ofList (leadOf text)) none (.error e)
      rw [String.toList_ofList] at hrendered
      rw [process_error d hparse]
      exact ⟨_, _, isResult_blank text, isMarkup_markupText none (.error e), hrendered⟩
  | ok p =>
      rw [process_ok d hparse, conclude_rendered, leadOf_ok hparse]
      exact ⟨_, _, hd.isResult hparse _, isMarkup_markupText _ _, rfl⟩

/-- Rendering does not change a statement: in every document over a table that shows its units bare,
a rendered statement fails as the statement does, or reads as the same statement, up to the unit
that it asks for. -/
theorem rendered_alike {definitions : List UnitDefinition} {t : UnitTable}
    (hbuild : UnitTable.build definitions = .ok t)
    (hbare : t.All fun entry => IsBare entry.display) (settings : Settings)
    (steps : List (String × Option String)) (text : String) (hint : Option String) :
    let d := (Document.processEach { table := t, settings } steps).2
    Alike (Statement.parse text) (Statement.parse (d.process text hint).1.rendered) := by
  intro d
  have hready : d.Ready (BaseName definitions) :=
    (ready_of_table (build_integrity hbuild) hbare settings).processEach steps
  obtain ⟨result, markup, hresult, hmarkup, hrendered⟩ := hready.rendered text hint
  rw [hrendered]
  exact hresult.parse hmarkup

/-- A unit that is shown as an operator. -/
def equalsTable : UnitTable :=
  { entries := [("eq", ⟨"eq", "==", .unit "eq", 1, 0⟩)] }

/-- The operator is hidden in the wrapper of the unit. -/
theorem rendered_alike_equals :
    UnitTable.build [{ name := "eq", display := some "==" }] = .ok equalsTable ∧
      (equalsTable.All fun entry => IsBare entry.display) ∧
      Alike (Statement.parse "x := 2 eq ==")
        (Statement.parse ((Document.processEach { table := equalsTable, settings := {} }
          [("y := 3 eq", none)]).2.process "x := 2 eq ==" none).1.rendered) := by
  have hbuild : UnitTable.build [{ name := "eq", display := some "==" }] = .ok equalsTable := rfl
  have hbare : ∀ e ∈ equalsTable.entries, IsBare e.2.display := by decide
  exact ⟨hbuild, hbare, rendered_alike hbuild hbare {} [("y := 3 eq", none)] "x := 2 eq ==" none⟩

end Worksheet.Document
