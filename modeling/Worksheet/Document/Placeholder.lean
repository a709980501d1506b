import Worksheet.Document.Basic
/-!
# Placeholders

Prose may name values in double braces, and has them replaced by what is bound to the names.
-/

namespace Worksheet

inductive ProsePart where
  | text (cs : List Char)
  | placeholder (name : List Char)
deriving DecidableEq, Inhabited

namespace ProsePart

/-- The name in the placeholder that a text begins with, and the length of the placeholder. -/
def here? : List Char → Option (List Char × Nat)
  | '\x7b' :: cs =>
    match Text.group? cs with
    | some (body, '\x7d' :: _) => some (Text.trim body, body.length + 4)
    | _ => none
  | _ => none

/-- The first argument counts characters that belong to the part before. -/
def splitFrom : Nat → List Char → List ProsePart
  | _, [] => []
  | n + 1, _ :: cs => splitFrom n cs
  | 0, c :: cs =>
    match here? (c :: cs) with
    | some (name, size) => .placeholder name :: splitFrom (size - 1) cs
    | none =>
      if c = '\x7b' && cs.head? = some '\x7b' then .text [c, '\x7b'] :: splitFrom 1 cs
      else .text [c] :: splitFrom 0 cs

/-- The parts of a prose text. Double braces that close nowhere are text. -/
def split (cs : List Char) : List ProsePart := splitFrom 0 cs

end ProsePart

namespace Document

def missingText (code : ErrorCode) (name rest : String) : String :=
  Markup.render .error (code.name ++ ": " ++ name ++ rest) none

/-- What a placeholder is replaced by. A name that stands for no value is an error. -/
def replacement (d : Document) (name : String) : String × Document :=
  let failed := { d with errors := d.errors + 1 }
  match d.registry.lookup (.ofSpelling name) with
  | none => (missingText .undefinedVariable name "", failed)
  | some entry =>
    match entry.binder with
    | .function _ => (missingText .notAValue name " is a function", failed)
    | .value v _ =>
      let r : Rendering := ⟨d.table, d.settings⟩
      (r.value (if d.settings.compactPrefixes then r.compact v else v), d)

def fill (d : Document) : List ProsePart → List Char × Document
  | [] => ([], d)
  | .text cs :: parts =>
    let (rest, d) := fill d parts
    (cs ++ rest, d)
  | .placeholder name :: parts =>
    let (text, d) := d.replacement (String.ofList name)
    let (rest, d) := fill d parts
    (text.toList ++ rest, d)

/-- Replaces every placeholder in a prose text. -/
def resolvePlaceholders (d : Document) (prose : String) : String × Document :=
  let (cs, d) := d.fill (ProsePart.split prose.toList)
  (String.ofList cs, d)

end Document

end Worksheet
