import Worksheet.Error
import Worksheet.Expr.Scope
import Worksheet.Text.Blank
import Worksheet.UnitTable.Basic
import Worksheet.Value
/-!
# Registries

The names that a document has bound, in the order in which they were bound first. A name that is
bound again keeps its place, so that trees which refer to it see the new binding.
-/

namespace Worksheet

/-- A function that a document defines. The body refers to the parameters by their places, and is
evaluated at every call. -/
structure FunctionDefinition where
  name : Name
  params : List Name
  body : Expr
  /-- The body as it was written. -/
  source : String
deriving Inhabited

def FunctionDefinition.arity (f : FunctionDefinition) : Nat := f.params.length

inductive Binder where
  /-- A value, and the expression it came from as it was written. -/
  | value (value : Value) (source : String)
  | function (definition : FunctionDefinition)
deriving Inhabited

structure Entry where
  id : SymbolId
  name : Name
  /-- The name as it was written first. -/
  display : String
  binder : Binder
deriving Inhabited

structure Registry where
  entries : List Entry := []
  /-- Where the names stand among the entries. The newest pair with a name counts. -/
  places : List (Name × SymbolId) := []
deriving Inhabited

namespace Registry

def size (r : Registry) : Nat := r.entries.length

def get? (r : Registry) (id : SymbolId) : Option Entry := r.entries[id.index]?

def place? (r : Registry) (name : Name) : Option SymbolId := r.places.lookup name

def lookup (r : Registry) (name : Name) : Option Entry := (r.place? name).bind r.get?

theorem mem_of_lookup (r : Registry) {name : Name} {e : Entry} (h : r.lookup name = some e) :
    e ∈ r.entries := by
  obtain ⟨id, -, he⟩ := Option.bind_eq_some_iff.1 h
  exact List.mem_of_getElem? he

def trimmed (text : String) : String := String.ofList (Text.trim text.toList)

/-- Binds what stands at a place to something else. -/
def rebind (r : Registry) (id : SymbolId) (binder : Binder) : Registry :=
  { r with entries := r.entries.modify id.index fun e => { e with binder } }

/-- Puts a name behind all others. -/
def add (r : Registry) (name : Name) (display : String) (binder : Binder) : Registry where
  entries := r.entries ++ [⟨⟨r.size⟩, name, display, binder⟩]
  places := (name, ⟨r.size⟩) :: r.places

/-- Binds a name: in its place if it has one, and else at the end. -/
def bind (r : Registry) (display : String) (binder : Binder) : Registry :=
  let name := Name.ofSpelling display
  match (r.place? name).filter fun id => id.index < r.size with
  | some id => r.rebind id binder
  | none => r.add name (trimmed display) binder

/-- Binds a name to a value, unless that would hide a unit. `span` is where the name stands. -/
def bindValue (r : Registry) (t : UnitTable) (display : String) (value : Value) (source : String)
    (span : Span) : Except Error Registry :=
  let name := Name.ofSpelling display
  if t.isReserved name then
    .error ⟨.unitRedefinition, span,
      some (name.text ++ " is a unit; add a subscript to use it as a name")⟩
  else .ok (r.bind display (.value value (trimmed source)))

/-- Binds a name to a function. A function is always written with its arguments, so its name may be
that of a unit. -/
def defineFunction (r : Registry) (display : String) (params : List Name) (body : Expr)
    (source : String) : Registry :=
  r.bind display (.function ⟨Name.ofSpelling display, params, body, trimmed source⟩)

/-- What a name means to an equation that is read now. -/
def resolve (r : Registry) (name : Name) : Option Resolved :=
  (r.lookup name).map fun e =>
    match e.binder with
    | .value .. => .value e.id
    | .function f => .function e.id f.arity

/-- The scope of an equation with some parameters. -/
def scope (r : Registry) (t : UnitTable) (parameters : List Name) : Scope where
  mode := .equation
  resolve := r.resolve
  parameters := parameters
  isUnitSymbol := t.isReserved
  isUnitWord := t.readsAsUnit

end Registry

end Worksheet
