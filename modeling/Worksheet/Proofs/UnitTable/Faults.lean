import Worksheet.Proofs.Expr.Scoped
import Worksheet.UnitTable.Expression
/-!
# Faults of unit texts

A text that says no product of units is at fault itself.
-/

namespace Worksheet

/-- Gives a result, or an error that tells of the text. -/
abbrev Readable {α : Type} (r : Except SourceError α) : Prop :=
  Meets (fun e => e.code.External) (fun _ => True) r

theorem literalInteger_readable (span : Span) (value : Float) :
    Readable (literalInteger span value) := by
  fun_cases literalInteger <;> first | exact .ok trivial | exact .error nofun

theorem integerOp_readable (op : BinaryOp) (span : Span) (m n : Int) :
    Readable (integerOp op span m n) := by
  unfold integerOp
  dsimp only
  split
  · exact .error nofun
  · split
    · exact .ok trivial
    · exact .error nofun

theorem Expr.integer_readable (e : Expr) : Readable e.integer := by
  fun_induction Expr.integer with
  | case1 span literal value => exact literalInteger_readable span value
  | case2 | case3 | case4 | case5 | case6 => exact .error nofun
  | case7 span inner ih => exact ih
  | case8 span sign operand ih =>
    apply ih.bind
    intro n _
    split
    · exact .ok trivial
    · split
      · exact .ok trivial
      · exact .error nofun
  | case9 span op left right ihleft ihright =>
    apply ihleft.bind
    intro m _
    apply ihright.bind
    intro n _
    exact integerOp_readable op span m n

namespace UnitTable

theorem orOverflow_readable (span : Span) (p? : Option UnitProduct) :
    Readable (orOverflow span p?) := by
  cases p? with
  | some p => exact .ok trivial
  | none => exact .error nofun

theorem single_readable (t : UnitTable) (span : Span) (name : String) :
    Readable (t.single span name) := by
  unfold single
  split
  · exact .ok trivial
  · exact .error nofun

theorem product_readable (t : UnitTable) (e : Expr) : Readable (t.product e) := by
  fun_induction t.product e with
  | case1 | case3 => exact .ok trivial
  | case2 | case7 | case8 | case9 | case10 | case14 | case16 | case17 => exact .error nofun
  | case4 | case5 => exact single_readable t _ _
  | case6 span inner ih => exact ih
  | case11 span left right ih =>
    apply right.integer_readable.bind
    intro n _
    exact ih.bind fun p _ => orOverflow_readable span _
  | case12 span left right ihleft ihright =>
    apply ihleft.bind
    intro p _
    exact ihright.bind fun q _ => orOverflow_readable span _
  | case13 span left right _ ih => exact ih.bind fun p _ => orOverflow_readable span _
  | case15 span left right _ _ ihleft ihright =>
    apply ihleft.bind
    intro p _
    exact ihright.bind fun q _ => orOverflow_readable span _

theorem parse_readable (t : UnitTable) (text : String) : Readable (t.parse text) := by
  apply ((Expr.parse_meets (Scope.empty_within .units) _).imp (fun _ h => h) fun _ _ => trivial).bind
  intro e? _
  cases e? with
  | some e => exact product_readable t e
  | none => exact .ok trivial

end UnitTable

end Worksheet
