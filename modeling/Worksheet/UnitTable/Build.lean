import Worksheet.UnitTable.Definition
import Worksheet.UnitTable.Expression
/-!
# Building unit tables

Base units come first, then the units with an equation, each of which may use those before it. All
definitions are tried, so that every fault is reported.
-/

namespace Worksheet

/-- A prefix, and whether results may take it. -/
structure UnitPrefix where
  symbol : String
  factor : Float
  metricOnly : Bool := false
  /-- Results may be shown with it. -/
  shown : Bool := true

/-- The prefixes from large to small. -/
def UnitPrefix.all : List UnitPrefix :=
  [{ symbol := "G", factor := 1e9 },
    { symbol := "M", factor := 1e6 },
    { symbol := "k", factor := 1e3 },
    { symbol := "d", factor := 1e-1, metricOnly := true, shown := false },
    { symbol := "c", factor := 1e-2, metricOnly := true, shown := false },
    { symbol := "m", factor := 1e-3 },
    { symbol := "µ", factor := 1e-6 },
    { symbol := "u", factor := 1e-6, shown := false },
    { symbol := "n", factor := 1e-9 }]

namespace UnitTable

/-- A table that is being built, and the faults of definitions so far. -/
structure Draft where
  table : UnitTable := {}
  faults : List (String × SourceError) := []

def addEntry (t : UnitTable) (entry : UnitEntry) : UnitTable :=
  { t with entries := (entry.symbol, entry) :: t.entries }

/-- Adds a unit with one prefix, and to the family if results may take it. A unit that has the name
already stays, and joins the family if it measures the same. -/
def addPrefixed (base : UnitEntry) (p : UnitPrefix) (t : UnitTable)
    (family : List String) : UnitTable × List String :=
  let symbol := p.symbol ++ base.symbol
  let scale := base.scale * p.factor
  match t.lookup symbol with
  | some existing =>
    if p.shown && existing.dimension = base.dimension && Number.isClose existing.scale scale then
      (t, family ++ [existing.symbol])
    else (t, family)
  | none =>
    (t.addEntry ⟨symbol, p.symbol ++ base.display, base.dimension, scale, 0⟩,
      if p.shown then family ++ [symbol] else family)

def addPrefixes (t : UnitTable) (base : UnitEntry) (prefixes : Prefixes) : UnitTable :=
  let taken := UnitPrefix.all.filter fun p => !p.metricOnly || prefixes = .metric
  let (t, family) :=
    taken.foldl (fun (t, family) p => addPrefixed base p t family) (t, [base.symbol])
  { t with
    stems := family.reverse.map (·, base.symbol) ++ t.stems
    families := (base.symbol, family) :: t.families }

namespace Draft

def duplicate (d : Draft) (name : String) : Draft :=
  { d with faults := d.faults ++ [(name, ⟨.duplicateUnit, ⟨0, 0⟩⟩)] }

def addAlias (name : String) (d : Draft) (other : String) : Draft :=
  if d.table.isUnit other || other = name then d.duplicate name
  else { d with table := { d.table with aliases := (other, name) :: d.table.aliases } }

/-- Adds a unit with its other names and its prefixes, unless the name is taken. -/
def add (d : Draft) (definition : UnitDefinition) (dimension : UnitProduct) (scale : Float) :
    Draft :=
  if d.table.isUnit definition.name then d.duplicate definition.name
  else
    let d := definition.aliases.foldl (addAlias definition.name) d
    let entry : UnitEntry :=
      ⟨definition.name, definition.display.getD definition.name, dimension, scale,
        definition.offset⟩
    let table := d.table.addEntry entry
    { d with
      table :=
        if definition.prefixes = .none then table
        else table.addPrefixes entry definition.prefixes }

/-- Adds a base unit, and leaves other definitions alone. -/
def addBase (d : Draft) (definition : UnitDefinition) : Draft :=
  match definition.equation with
  | none => d.add definition (.unit definition.name) definition.scale
  | some _ => d

/-- Adds a unit with an equation, and leaves other definitions alone. One whose dimension has an
exponent out of range is left out. -/
def addDerived (d : Draft) (definition : UnitDefinition) : Draft :=
  match definition.equation with
  | none => d
  | some equation =>
    match d.table.parse equation with
    | .error fault => { d with faults := d.faults ++ [(definition.name, fault)] }
    | .ok units =>
      match d.table.quantity? 1 units with
      | some base => d.add definition base.dimension (definition.scale * base.scale)
      | none => d

end Draft

/-- The table of some definitions, or all their faults under the names of the units. -/
def build (definitions : List UnitDefinition) : Except (List (String × SourceError)) UnitTable :=
  let bases := definitions.foldl Draft.addBase {}
  let draft := definitions.foldl Draft.addDerived bases
  if draft.faults.isEmpty then .ok draft.table else .error draft.faults

end UnitTable

end Worksheet
