import Worksheet.Json.Decode
/-!
# Unit definitions

Units as they are defined in a document, and their JSON form.
-/

namespace Worksheet

inductive Prefixes where
  | none
  /-- The powers of a thousand from nano to giga. -/
  | engineering
  | metric
deriving DecidableEq, Inhabited

def Prefixes.name : Prefixes → String
  | .none => "none"
  | .engineering => "engineering"
  | .metric => "metric"

def Prefixes.ofName? (name : String) : Option Prefixes :=
  [Prefixes.none, .engineering, .metric].find? fun prefixes => prefixes.name = name

/-- A unit is `scale` times the product that its equation names, counted from `-offset`. Without an
equation it is a base unit. -/
structure UnitDefinition where
  name : String
  equation : Option String := .none
  scale : Float := 1
  offset : Float := 0
  aliases : List String := []
  prefixes : Prefixes := .none
  /-- The symbol in results, if that is not the name. -/
  display : Option String := .none
deriving DecidableEq, Inhabited

namespace UnitDefinition

private def fieldNames : List String :=
  ["name", "equation", "scale", "offset", "aliases", "prefixes", "display"]

/-- Reads a definition; only the name has no default. -/
def ofJson? (json : Json) : Option UnitDefinition := do
  match ← json.fields? fieldNames with
  | [some name, equation, scale, offset, aliases, prefixes, display] =>
    some {
      name := ← name.string?
      equation := ← Json.field? (Json.optional? Json.string?) .none equation
      scale := ← Json.field? Json.float? 1 scale
      offset := ← Json.field? Json.float? 0 offset
      aliases := ← Json.field? (Json.list? Json.string?) [] aliases
      prefixes := ← Json.field? (fun j => j.choice?.bind Prefixes.ofName?) .none prefixes
      display := ← Json.field? (Json.optional? Json.string?) .none display }
  | _ => none

def ofText? (text : String) : Option UnitDefinition := (Json.read? text).bind ofJson?

end UnitDefinition

end Worksheet
