import Worksheet.Expr.Print
import Worksheet.Json.Basic
import Worksheet.Registry.Basic
/-!
# Snapshots

All bindings of a registry at one time, as plain data.
-/

namespace Worksheet

inductive SymbolSnapshot where
  | value (name : String) (id : Nat) (values : List Float) (isArray : Bool) (unit source : String)
  | function (name : String) (id : Nat) (params : List String) (body source : String)
deriving DecidableEq, Inhabited

namespace SymbolSnapshot

/-- An array is listed with the unit of its first element. -/
def ofEntry (e : Entry) : SymbolSnapshot :=
  match e.binder with
  | .value v source =>
    .value e.display e.id.index (v.quantities.map Quantity.magnitude) v.isArray
      ((v.first?.map fun q => q.units.text).getD "") source
  | .function f =>
    .function e.display e.id.index (f.params.map Name.text) f.body.print f.source

def toJson : SymbolSnapshot → Json
  | value name id values isArray unit source =>
    .record
      [("kind", .string "value"), ("name", .string name), ("id", .ofNat id),
        ("values", .array (values.map .ofFloat)), ("is_array", .bool isArray),
        ("unit", .string unit), ("source", .string source)]
  | function name id params body source =>
    .record
      [("kind", .string "function"), ("name", .string name), ("id", .ofNat id),
        ("params", .array (params.map .string)), ("body", .string body),
        ("source", .string source)]

end SymbolSnapshot

/-- The bindings in the order of their places. -/
def Registry.snapshot (r : Registry) : List SymbolSnapshot := r.entries.map .ofEntry

def Registry.snapshotText (r : Registry) : String :=
  (Json.record [("symbols", .array (r.snapshot.map SymbolSnapshot.toJson))]).pretty

end Worksheet
