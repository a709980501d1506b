import Worksheet.Name
import Worksheet.Number.Power
import Worksheet.Quantity
/-!
# Unit tables

The units that a document knows, under their symbols and all other names.
-/

namespace Worksheet

/-- A unit and how magnitudes in it come to base units: `(x + offset) * scale`. -/
structure UnitEntry where
  symbol : String
  display : String
  dimension : UnitProduct
  scale : Float
  offset : Float
deriving DecidableEq, Inhabited

/-- In all lists the newest pair with a key counts. -/
structure UnitTable where
  /-- Other names, with the symbols they stand for. -/
  aliases : List (String × String) := []
  entries : List (String × UnitEntry) := []
  /-- For a symbol without prefix, the symbols that results in it may be shown in. -/
  families : List (String × List String) := []
  /-- For a symbol in a family, the one without prefix. -/
  stems : List (String × String) := []
deriving Inhabited

namespace UnitTable

def lookup (t : UnitTable) (name : String) : Option UnitEntry :=
  t.entries.lookup ((t.aliases.lookup name).getD name)

def isUnit (t : UnitTable) (name : String) : Bool := (t.lookup name).isSome

/-- A value with this name would hide a unit. -/
def isReserved (t : UnitTable) (name : Name) : Bool := !name.isDecorated && t.isUnit name.text

/-- A bare word that expressions take for a unit. A single letter stays a name. -/
def readsAsUnit (t : UnitTable) (word : String) : Bool := 2 ≤ word.length && t.isUnit word

/-- A symbol as results show it. -/
def displaySymbol (t : UnitTable) (symbol : String) : String :=
  match t.lookup symbol with
  | some entry => entry.display
  | none => symbol

/-- The symbols that a result in a unit may be shown in, the unit itself among them. -/
def family (t : UnitTable) (symbol : String) : List String :=
  ((t.stems.lookup symbol).bind fun stem => t.families.lookup stem).getD []

/-- The dimension and the scale of a product, from the first factor on, unless a symbol is not known
or an exponent leaves its range. -/
def measure? (t : UnitTable) (units : UnitProduct) : Option (UnitProduct × Float) :=
  units.factors.foldlM
    (fun (dimension, scale) (symbol, e) => do
      let entry ← t.lookup symbol
      let dimension ← dimension.mul? (← entry.dimension.pow? e)
      some (dimension, scale * Number.power entry.scale e))
    (.one, 1)

/-- The offset of a product. Only a unit that stands alone has one; in a product it measures a
difference. -/
def offsetOf (t : UnitTable) (units : UnitProduct) : Float :=
  match units.factors with
  | [(symbol, 1)] => ((t.lookup symbol).map UnitEntry.offset).getD 0
  | _ => 0

def quantity? (t : UnitTable) (magnitude : Float) (units : UnitProduct) : Option Quantity := do
  let (dimension, scale) ← t.measure? units
  some ⟨magnitude, units, dimension, scale, t.offsetOf units⟩

end UnitTable

end Worksheet
