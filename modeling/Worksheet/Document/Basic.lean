import Worksheet.Evaluation
import Worksheet.Expr.Parse
import Worksheet.Markup
import Worksheet.Rendering
import Worksheet.Statement.Basic
/-!
# Documents

A run over the statements of a document, in their order. A statement that fails leaves the names as
they were.
-/

namespace Worksheet

structure Outcome where
  rendered : String
  diagnostics : List Diagnostic
deriving DecidableEq, Inhabited

def Outcome.hasErrors (o : Outcome) : Bool := o.diagnostics.any Diagnostic.isError

/-- A run: what it works with, the names bound so far, and how many errors and warnings there
were. -/
structure Document where
  table : UnitTable
  settings : Settings
  registry : Registry := {}
  errors : Nat := 0
  warnings : Nat := 0
deriving Inhabited

namespace Document

def environment (d : Document) : Environment := ⟨d.table, d.registry, d.settings⟩

def rendering (d : Document) : Rendering := ⟨d.table, d.settings⟩

def parse (d : Document) (f : Fragment) (params : List Name) : Except Error Expr :=
  match Expr.parse (d.registry.scope d.table params) f.text with
  | .ok (some e) => .ok e
  | .ok none => .error ⟨.emptyEquation, f.span, none⟩
  | .error e => .error ((Error.ofSource e).shift f.offset)

/-- The value of a part of a statement, with the warnings on the way. -/
def evaluate (d : Document) (f : Fragment) : Except Error (Value × List Diagnostic) := do
  let e ← d.parse f []
  let (result, warnings) := (e.eval d.environment).result
  match result with
  | .ok v => .ok (v, warnings.map fun w => w.shift f.offset)
  | .error e => .error (e.shift f.offset)

/-- A quantity in the hinted unit, which a bare number takes over. The units of a quantity that has
another dimension are the error. -/
def convert (target q : Quantity) : Except UnitProduct Quantity :=
  if q.isNumber then .ok (target.withMagnitude q.magnitude)
  else
    match q.convertTo? target with
    | some converted => .ok converted
    | none => .error q.units

/-- A value in the hinted unit. If its dimension is another one it is written in base units, with a
warning. -/
def applyHint (d : Document) (v : Value) (hint : String) (span : Span) :
    Except Error (Value × List Diagnostic) := do
  let units ←
    match d.table.parse hint with
    | .ok units => .ok units
    | .error e => .error ⟨e.code, span, some ("unit hint " ++ hint)⟩
  match d.table.quantity? 1 units with
  | none => .error ⟨.unknownUnit, span, some hint⟩
  | some target =>
    match v.mapM (convert target) with
    | .ok converted => .ok (converted, [])
    | .error units =>
      let code := ErrorCode.conversionMismatch
      let details := "can't express " ++ units.text ++ " in " ++ target.units.text
      .ok (v.toBase, [.warning code span (code.name ++ ": " ++ details)])

/-- The text of a value as a statement shows it, with the warnings on the way. -/
def present (d : Document) (v : Value) (display : Display) (hint : Option String) (span : Span) :
    Except Error (String × List Diagnostic) := do
  match display, hint with
  | .raw, _ => return (d.rendering.value v, [])
  | .convert _, some hint => do
    let (converted, warnings) ← d.applyHint v hint span
    return (d.rendering.value converted, warnings)
  | .convert _, none =>
    let shown := if d.settings.compactPrefixes then d.rendering.compact v else v
    return (d.rendering.value shown, [])

structure Effect where
  shown : Option String
  warnings : List Diagnostic
  registry : Registry

/-- A parameter that would be read as a unit in the body, where it could never be meant. -/
def hiddenParameter? (t : UnitTable) (params : List Name) (spans : List Span) :
    Option (Name × Span) :=
  (params.zip spans).find? fun (param, _) => !param.isDecorated && t.readsAsUnit param.text

/-- Runs a statement. The hint is the unit that its value should be shown in. -/
def run (d : Document) (statement : Statement) (hint : Option String) : Except Error Effect := do
  match statement with
  | .definition name params spans body =>
    match hiddenParameter? d.table params spans with
    | some (param, span) => .error ⟨.unitRedefinition, span, some (param.text ++ " is a unit")⟩
    | none =>
      let e ← d.parse body params
      return ⟨none, [], d.registry.defineFunction name.trimmed params e body.text⟩
  | .assignment name expr display =>
    let (v, warnings) ← d.evaluate expr
    let (shown, more) ←
      match display with
      | some display => do
        let (text, more) ← d.present v display hint expr.span
        pure (some text, more)
      | none => pure (none, [])
    let registry ← d.registry.bindValue d.table name.trimmed v expr.text name.span
    return ⟨shown, warnings ++ more, registry⟩
  | .display expr display =>
    let (v, warnings) ← d.evaluate expr
    let (text, more) ← d.present v display hint expr.span
    return ⟨some text, warnings ++ more, d.registry⟩

def fail (d : Document) (lead : String) (hint : Option String) (e : Error) :
    Outcome × Document :=
  let diagnostic := Diagnostic.ofError e
  (⟨lead ++ " " ++ Markup.render .error diagnostic.message hint, [diagnostic]⟩,
    { d with errors := d.errors + 1 })

/-- Ends a statement that has run. The first warning is shown, and the hint with it if the value
could not be given in the hinted unit. -/
def succeed (d : Document) (lead : String) (hint : Option String) (effect : Effect) :
    Outcome × Document :=
  let shown := (effect.shown.map fun text => " " ++ text).getD ""
  let unmet := effect.warnings.any fun w => w.code = .conversionMismatch
  let markup :=
    match effect.warnings with
    | [] => ""
    | first :: _ => Markup.render .warning first.message (if unmet then hint else none)
  (⟨lead ++ shown ++ markup, effect.warnings⟩,
    { d with
      registry := effect.registry
      warnings := d.warnings + effect.warnings.length })

/-- The unit that a statement asks for: its own, or else one that the caller gives. -/
def requestedHint (display : Option Display) (hint : Option String) : Option String :=
  match display with
  | some (.convert (some own)) => some own
  | some (.convert none) => hint
  | _ => none

/-- Processes a statement. The hint is a unit that a value is shown in if the statement does not
name one itself. -/
def process (d : Document) (text : String) (hint : Option String) : Outcome × Document :=
  match Statement.parse text with
  | .error e =>
    d.fail (String.ofList (Text.trimEnd (Markup.split text.toList).1)) none e
  | .ok parsed =>
    let requested := requestedHint parsed.statement.display? hint
    match d.run parsed.statement requested with
    | .ok effect => d.succeed parsed.lead requested effect
    | .error e => d.fail parsed.lead requested e

def processAll (d : Document) : List String → List Outcome × Document
  | [] => ([], d)
  | text :: texts =>
    let (outcome, d) := d.process text none
    let (outcomes, d) := processAll d texts
    (outcome :: outcomes, d)

end Document

end Worksheet
