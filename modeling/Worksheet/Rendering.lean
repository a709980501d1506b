import Worksheet.Number.Decimal
import Worksheet.Settings
import Worksheet.UnitTable.Basic
import Worksheet.Value
/-!
# Rendering values

Values as LaTeX. What is written here reads back as the value it came from, up to the precision of
the numbers, so that a document with its results in it can be processed again.
-/

namespace Worksheet

structure Rendering where
  table : UnitTable
  settings : Settings
deriving Inhabited

namespace Rendering

def dropTrailing (c : Char) (text : List Char) : List Char :=
  (text.reverse.dropWhile (· = c)).reverse

/-- Drops the zeros at the end of a fraction, and the point if nothing is left of it. A zero has no
sign. -/
def trimZeros (text : String) : String :=
  let cs := text.toList
  let trimmed := if cs.contains '.' then dropTrailing '.' (dropTrailing '0' cs) else cs
  if trimmed = ['-', '0'] then "0" else String.ofList trimmed

/-- A finite number with `precision` significant digits, or with a power of ten outside of the range
of the settings. The range is compared with the rounded number. -/
def finiteNumber (s : Settings) (b : Number.Binary) : String :=
  let precision := max s.precision 1
  let rounded := Number.Scientific.ofBinary precision b
  let x := rounded.toFloat
  if x == 0 then "0"
  else if x.abs ≥ s.scientificAbove || x.abs < s.scientificBelow then
    trimZeros rounded.mantissa ++ " \\times 10^\x7b" ++ toString rounded.exponent ++ "\x7d"
  else
    let places := (precision - 1 - rounded.exponent : Int).toNat
    match Number.Binary.ofFloat? x with
    | some b => trimZeros (Number.fixed places b)
    | none => if x < 0 then "-inf" else "inf"

def number (s : Settings) (x : Float) : String :=
  match Number.Binary.ofFloat? x with
  | some b => finiteNumber s b
  | none => if x.isNaN then "\\mathrm\x7bNaN\x7d" else if x < 0 then "-inf" else "inf"

/-- A unit symbol in the spelling that unit texts have for it. -/
def symbolText (symbol : String) : String :=
  String.ofList <| symbol.toList.flatMap fun c =>
    if c = 'µ' then "\\mu ".toList
    else if c = 'Ω' then "\\Omega ".toList
    else if c = '%' then "\\%".toList
    else if c = '°' then "^\x7b\\circ\x7d".toList
    else [c]

def factor (r : Rendering) (symbol : String) (e : Int) : String :=
  let symbol := symbolText (r.table.displaySymbol symbol)
  if e = 1 then symbol else symbol ++ "^\x7b" ++ toString e ++ "\x7d"

def dot : String := "\\cdot "

def units (r : Rendering) (p : UnitProduct) : String :=
  match r.settings.display with
  | .negativeExponent =>
    dot.intercalate ((p.numerator ++ p.denominator).map fun (symbol, e) => r.factor symbol e)
  | mode =>
    let above := p.numerator.map fun (symbol, e) => r.factor symbol e
    let below := p.denominator.map fun (symbol, e) => r.factor symbol (-e)
    let numerator := if above.isEmpty then "1" else dot.intercalate above
    if mode = .grouped ∧ 1 < below.length then
      numerator ++ "/(" ++ dot.intercalate below ++ ")"
    else numerator ++ String.join (below.map fun d => "/" ++ d)

/-- A number or an array with its units after it. -/
def withUnits (r : Rendering) (body : String) (p : UnitProduct) : String :=
  if p.isOne then body else body ++ "\\ \\mathrm\x7b" ++ r.units p ++ "\x7d"

def quantity (r : Rendering) (q : Quantity) : String :=
  r.withUnits (number r.settings q.magnitude) q.units

/-- A scalar, or an array in a line, or in a column if it is longer than the settings allow. -/
def value (r : Rendering) : Value → String
  | .scalar q => r.quantity q
  | .array elements =>
    let numbers := elements.map fun q => number r.settings q.magnitude
    let body :=
      if r.settings.arrayColumnThreshold < elements.length then
        "\\begin\x7bbmatrix\x7d" ++ " \\\\ ".intercalate numbers ++ "\\end\x7bbmatrix\x7d"
      else "[" ++ ", ".intercalate numbers ++ "]"
    match elements with
    | [] => body
    | first :: _ => r.withUnits body first.units

/-- At least one and below a thousand. -/
def isHandy (x : Float) : Bool := 1 ≤ x && x < 1000

/-- The symbol of the only unit above the line, if it has no exponent. -/
def leadingSymbol? (p : UnitProduct) : Option String :=
  match p.numerator with
  | [(symbol, 1)] => some symbol
  | _ => none

def largest (v : Value) : Float :=
  v.quantities.foldl (fun m q => if m < q.magnitude.abs then q.magnitude.abs else m) 0

/-- The first symbol of a family that brings a magnitude into a handy range, and the factor that
does it. -/
def handySymbol? (t : UnitTable) (current : UnitEntry) (size : Float) :
    List String → Option (String × Float)
  | [] => none
  | candidate :: others =>
    match t.lookup candidate with
    | none => handySymbol? t current size others
    | some entry =>
      let factor := current.scale / entry.scale
      if isHandy (size * factor) then some (candidate, factor)
      else handySymbol? t current size others

/-- Writes a value with the prefix that brings its largest magnitude into a handy range, if its
units have one symbol above the line and this takes prefixes. -/
def compact (r : Rendering) (v : Value) : Value :=
  match v.first? with
  | none => v
  | some first =>
    if first.offset != 0 then v
    else
      match leadingSymbol? first.units with
      | none => v
      | some symbol =>
        let size := largest v
        if size == 0 || isHandy size then v
        else
          match r.table.lookup symbol with
          | none => v
          | some current =>
            match handySymbol? r.table current size (r.table.family symbol) with
            | none => v
            | some (candidate, factor) =>
              let units := (first.units.div (.unit symbol)).mul (.unit candidate)
              v.map fun q => (r.table.quantity? (q.magnitude * factor) units).getD q

end Rendering

end Worksheet
