import Worksheet.Json.Decode
/-!
# Settings

How results are computed and shown, and their JSON form.
-/

namespace Worksheet

inductive DisplayMode where
  /-- One factor after another: `mg/L/d`. -/
  | native
  /-- The denominator in parentheses: `mg/(L d)`. -/
  | grouped
  /-- Powers only: `mg L^-1 d^-1`. -/
  | negativeExponent
deriving DecidableEq, Inhabited

/-- What adding quantities of different dimensions does. -/
inductive MismatchPolicy where
  /-- Warns, and goes on with the left operand in base units. -/
  | warn
  | error
deriving DecidableEq, Inhabited

structure Settings where
  display : DisplayMode := .native
  precision : Nat := 6
  /-- Arrays that are longer are shown as a column. -/
  arrayColumnThreshold : Nat := 5
  mismatch : MismatchPolicy := .warn
  /-- Results without a hint are shown with a fitting prefix. -/
  compactPrefixes : Bool := true
  maxCallDepth : Nat := 64
  /-- From here on numbers are shown with a power of ten. -/
  scientificAbove : Float := 1e6
  scientificBelow : Float := 1e-3
deriving DecidableEq

instance : Inhabited Settings := ⟨{}⟩

def DisplayMode.name : DisplayMode → String
  | .native => "native"
  | .grouped => "grouped"
  | .negativeExponent => "negative_exponent"

def DisplayMode.ofName? (name : String) : Option DisplayMode :=
  [DisplayMode.native, .grouped, .negativeExponent].find? fun mode => mode.name = name

def MismatchPolicy.name : MismatchPolicy → String
  | .warn => "warn"
  | .error => "error"

def MismatchPolicy.ofName? (name : String) : Option MismatchPolicy :=
  [MismatchPolicy.warn, .error].find? fun policy => policy.name = name

namespace Settings

private def fieldNames : List String :=
  ["display", "precision", "array_column_threshold", "mismatch", "compact_prefixes",
    "max_call_depth", "scientific_above", "scientific_below"]

/-- Reads settings; a field that is absent keeps its default. -/
def ofJson? (json : Json) : Option Settings := do
  match ← json.fields? fieldNames with
  | [display, precision, threshold, mismatch, compact, depth, above, below] =>
    let initial : Settings := {}
    some {
      display := ← Json.field? (fun j => j.choice?.bind DisplayMode.ofName?) initial.display display
      precision := ← Json.field? Json.nat? initial.precision precision
      arrayColumnThreshold := ← Json.field? Json.nat? initial.arrayColumnThreshold threshold
      mismatch :=
        ← Json.field? (fun j => j.choice?.bind MismatchPolicy.ofName?) initial.mismatch mismatch
      compactPrefixes := ← Json.field? Json.bool? initial.compactPrefixes compact
      maxCallDepth := ← Json.field? Json.nat? initial.maxCallDepth depth
      scientificAbove := ← Json.field? Json.float? initial.scientificAbove above
      scientificBelow := ← Json.field? Json.float? initial.scientificBelow below }
  | _ => none

def ofText? (text : String) : Option Settings := (Json.read? text).bind ofJson?

def toJson (s : Settings) : Json :=
  .record
    [("display", .string s.display.name),
      ("precision", .ofNat s.precision),
      ("array_column_threshold", .ofNat s.arrayColumnThreshold),
      ("mismatch", .string s.mismatch.name),
      ("compact_prefixes", .bool s.compactPrefixes),
      ("max_call_depth", .ofNat s.maxCallDepth),
      ("scientific_above", .ofFloat s.scientificAbove),
      ("scientific_below", .ofFloat s.scientificBelow)]

end Settings

end Worksheet
