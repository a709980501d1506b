import Worksheet.Document.Basic
import Worksheet.Proofs.Token.Commands
import Worksheet.Proofs.UnitTable.Squeezed
import Worksheet.UnitTable.Build
/-!
# Units in expressions and in hints

The units that a value is asked for in are the units that the same text stands for in an expression.
Only if their dimension has an exponent out of range do the two fail in different ways.
-/

namespace Worksheet.Document

open Text

/-- A text in a wrapper of units. -/
def unitLiteral (text : String) : String := "\\mathrm\x7b" ++ text ++ "\x7d"

/-- Both are values in the same units, or both fail with the same code. -/
inductive SameUnits :
    Except Error (Value × List Diagnostic) → Except Error (Value × List Diagnostic) → Prop where
  | ok {v v' : Value} {ws ws' : List Diagnostic}
      (h : v.quantities.map Quantity.units = v'.quantities.map Quantity.units) :
      SameUnits (.ok (v, ws)) (.ok (v', ws'))
  | error {e e' : Error} (h : e.code = e'.code) : SameUnits (.error e) (.error e')

/-- The text says units that are not measured, since their dimension has an exponent out of
range. -/
def Overflows (t : UnitTable) (text : String) : Prop :=
  ∃ units, t.parse text = .ok units ∧ t.quantity? 1 units = none

instance (t : UnitTable) (text : String) : Decidable (Overflows t text) :=
  match hparse : t.parse text with
  | .error e => isFalse fun ⟨units, h, _⟩ => by
    rw [hparse] at h
    cases h
  | .ok units => decidable_of_iff (t.quantity? 1 units = none) ⟨fun h => ⟨units, hparse, h⟩, by
    rintro ⟨_, h, hquantity⟩
    rw [hparse] at h
    cases h
    exact hquantity⟩

variable {d : Document} {text : String}

/-! ## In an expression -/

/-- The text without the commands of units. -/
abbrev plainText (text : String) : String := String.ofList (UnitText.plain text.toList)

/-- In braces the text is one group. -/
abbrev IsGroup (text : String) : Prop :=
  untilClosed 0 (text.toList ++ ['\x7d']) = some (text.toList, [])

theorem parse_unitLiteral (scope : Scope) (hgroup : IsGroup text) :
    ∃ span, Expr.parse scope (unitLiteral text) = .ok (some (.unit span (plainText text))) := by
  have hscans : Scan.Scans ⟨scope.mode, scope.isUnitWord⟩ 0
      ("\\mathrm\x7b".toList ++ (text.toList ++ ['\x7d'])) [.unit (plainText text)] :=
    .wrapper hgroup .done
  have hread : ∀ last, Expr.Understands (Expr.sum scope last) Token.Kind.adds
      [.unit (plainText text)] (fun e => ∃ span, e = .unit span (plainText text)) := fun last =>
    Expr.sum_of_signedTerm (Expr.signedTerm_of_power rfl (Expr.power_of_operand
      (Expr.operand_unit fun span => ⟨span, rfl⟩)))
  have htext : (unitLiteral text).toList = "\\mathrm\x7b".toList ++ (text.toList ++ ['\x7d']) := by
    simp [unitLiteral]
  rw [← htext] at hscans
  obtain ⟨_, ⟨span, rfl⟩, hparse⟩ := Expr.parse_of_scans hscans hread
  exact ⟨span, hparse⟩

theorem eval_unit (env : Environment) (span : Span) (text : String) :
    (Expr.unit span text).eval env =
      (do return .scalar (← Evaluation.unitQuantity env span text)) := by
  unfold Expr.eval
  cases env.settings.maxCallDepth <;> rw [Evaluation.valueAt, Evaluation.value]

theorem evaluate_unitLiteral (d : Document) (hgroup : IsGroup text) (offset : Nat) :
    ∃ span, d.evaluate ⟨unitLiteral text, offset⟩ =
      match d.table.parse (plainText text) with
      | .error e => .error ⟨e.code, span, some (plainText text)⟩
      | .ok units =>
        match d.table.quantity? 1 units with
        | some q => .ok (.scalar q, [])
        | none => .error ⟨.unitExponentOverflow, span, some (plainText text)⟩ := by
  obtain ⟨span, hparse⟩ := parse_unitLiteral (d.registry.scope d.table []) hgroup
  have hliteral : d.parse ⟨unitLiteral text, offset⟩ [] =
      .ok (.unit span (plainText text)) := by
    unfold parse
    rw [hparse]
  have htable : d.environment.table = d.table := rfl
  refine ⟨span.shift offset, ?_⟩
  unfold evaluate
  rw [hliteral, ok_bind, eval_unit, Evaluation.unitQuantity, htable]
  cases d.table.parse (plainText text) with
  | error e => rfl
  | ok units =>
    dsimp only
    cases d.table.quantity? 1 units <;> rfl

/-! ## In a hint -/

theorem applyHint_number (d : Document) (x : Float) (hint : String) (span : Span) :
    d.applyHint (.number x) hint span =
      match d.table.parse hint with
      | .error e => .error ⟨e.code, span, some ("unit hint " ++ hint)⟩
      | .ok units =>
        match d.table.quantity? 1 units with
        | some q => .ok (.scalar (q.withMagnitude x), [])
        | none => .error ⟨.unknownUnit, span, some hint⟩ := by
  unfold applyHint
  cases d.table.parse hint with
  | error e => rfl
  | ok units =>
    dsimp only
    rw [ok_bind]
    cases d.table.quantity? 1 units <;> rfl

/-! ## The same units -/

/-- The units of the literal, if the plain spelling is settled. -/
theorem sameUnits_of_same (hgroup : IsGroup text)
    (hsame : SameResult Eq (d.table.parse text) (d.table.parse (plainText text)))
    (hfits : ¬Overflows d.table text) (x : Float) (offset : Nat) (span : Span) :
    SameUnits (d.evaluate ⟨unitLiteral text, offset⟩) (d.applyHint (.number x) text span) := by
  obtain ⟨span', heval⟩ := evaluate_unitLiteral d hgroup offset
  rw [heval, applyHint_number]
  generalize hhint : d.table.parse text = r at hsame ⊢
  generalize d.table.parse (plainText text) = r' at hsame ⊢
  cases hsame with
  | error hcode => exact .error hcode.symm
  | @ok units _ h =>
    subst h
    dsimp only
    cases hquantity : d.table.quantity? 1 units with
    | none => exact absurd ⟨units, hhint, hquantity⟩ hfits
    | some q => exact .ok rfl

/-- The two ways to fail. -/
theorem not_sameUnits_of_overflows (hgroup : IsGroup text)
    (hsame : SameResult Eq (d.table.parse text) (d.table.parse (plainText text)))
    (hoverflows : Overflows d.table text) (x : Float) (offset : Nat) (span : Span) :
    ¬SameUnits (d.evaluate ⟨unitLiteral text, offset⟩) (d.applyHint (.number x) text span) := by
  obtain ⟨units, hparse, hquantity⟩ := hoverflows
  obtain ⟨span', heval⟩ := evaluate_unitLiteral d hgroup offset
  have hplain : d.table.parse (plainText text) = .ok units := by
    rw [hparse] at hsame
    generalize d.table.parse (plainText text) = r at hsame ⊢
    cases hsame with
    | ok h => rw [h]
  rw [heval, applyHint_number, hparse, hplain]
  dsimp only
  rw [hquantity]
  intro h
  cases h with
  | error hcode => cases hcode

/-- A text says the same units in an expression and as the hint of a number, and fails with the same
code, exactly if they can be measured. The text has no degree sign that comes up only when its
commands are taken out. -/
theorem sameUnits_iff (d : Document) (hgroup : IsGroup text)
    (hdegree : ¬"^\\circ".toList <:+: UnitText.plain text.toList) (x : Float) (offset : Nat)
    (span : Span) :
    SameUnits (d.evaluate ⟨unitLiteral text, offset⟩) (d.applyHint (.number x) text span) ↔
      ¬Overflows d.table text := by
  have hsettled := UnitText.settled_plain text.toList hdegree
  have hsame : SameResult Eq (d.table.parse text) (d.table.parse (plainText text)) :=
    UnitTable.parse_plain_same (by rwa [String.toList_ofList])
  refine ⟨fun h hoverflows => ?_, fun hfits => sameUnits_of_same hgroup hsame hfits x offset span⟩
  exact not_sameUnits_of_overflows hgroup hsame hoverflows x offset span h

/-- Metres and litres. -/
def litreTable : UnitTable :=
  let litre : UnitDefinition := { name := "L", equation := some "m^3", scale := 1e-3 }
  (UnitTable.build [{ name := "m" }, litre]).toOption.getD {}

/-- Litres on an area. -/
theorem sameUnits_rain :
    let d : Document := { table := litreTable, settings := {} }
    IsGroup "L\\,m^\x7b-2\x7d" ∧
      ¬"^\\circ".toList <:+: UnitText.plain "L\\,m^\x7b-2\x7d".toList ∧
      SameUnits (d.evaluate ⟨unitLiteral "L\\,m^\x7b-2\x7d", 0⟩)
        (d.applyHint (.number 5) "L\\,m^\x7b-2\x7d" ⟨0, 1⟩) := by
  intro d
  have hgroup : IsGroup "L\\,m^\x7b-2\x7d" := by decide +kernel
  have hdegree : ¬"^\\circ".toList <:+: UnitText.plain "L\\,m^\x7b-2\x7d".toList := by
    decide +kernel
  exact ⟨hgroup, hdegree, (sameUnits_iff d hgroup hdegree 5 0 ⟨0, 1⟩).2 (by decide +kernel)⟩

/-- The dimension of this power of a litre is out of range, which the hint calls a unit that is not
known. -/
theorem not_sameUnits_litres :
    let d : Document := { table := litreTable, settings := {} }
    IsGroup "L^\x7b1073741824\x7d" ∧
      (∃ e, d.evaluate ⟨unitLiteral "L^\x7b1073741824\x7d", 0⟩ = .error e ∧
        e.code = .unitExponentOverflow) ∧
      (∃ e, d.applyHint (.number 5) "L^\x7b1073741824\x7d" ⟨0, 1⟩ = .error e ∧
        e.code = .unknownUnit) ∧
      ¬SameUnits (d.evaluate ⟨unitLiteral "L^\x7b1073741824\x7d", 0⟩)
        (d.applyHint (.number 5) "L^\x7b1073741824\x7d" ⟨0, 1⟩) := by
  intro d
  have hgroup : IsGroup "L^\x7b1073741824\x7d" := by decide +kernel
  have hplain : plainText "L^\x7b1073741824\x7d" = "L^\x7b1073741824\x7d" := by decide +kernel
  have hoverflows : Overflows d.table "L^\x7b1073741824\x7d" := by decide +kernel
  have hnot := not_sameUnits_of_overflows hgroup (by rw [hplain]; exact sameResult_refl _)
    hoverflows 5 0 ⟨0, 1⟩
  obtain ⟨units, hparse, hquantity⟩ := hoverflows
  obtain ⟨span, heval⟩ := evaluate_unitLiteral d hgroup 0
  have hhint := applyHint_number d 5 "L^\x7b1073741824\x7d" ⟨0, 1⟩
  rw [hplain, hparse] at heval
  rw [hparse] at hhint
  dsimp only at heval hhint
  rw [hquantity] at heval hhint
  exact ⟨hgroup, ⟨_, heval, rfl⟩, ⟨_, hhint, rfl⟩, hnot⟩

/-- Behind the wrapper a degree sign comes up, and is found only when the commands are taken out
once more. -/
example : "^\\circ".toList <:+: UnitText.plain "m^\\mathrm\\circle".toList ∧
    plainText (plainText "m^\\mathrm\\circle") = "m°le " := by decide +kernel

end Worksheet.Document
