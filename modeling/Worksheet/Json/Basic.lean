import Worksheet.Number.Shortest
/-!
# JSON values

JSON as a tree, and its text. Numbers keep their literal, since what it stands for depends on the
kind of number that is asked for.
-/

namespace Worksheet

inductive Json where
  | null
  | bool (value : Bool)
  | number (literal : String)
  | string (text : String)
  /-- A string with half of a surrogate pair, which may stand only where nobody reads it. -/
  | brokenString
  | array (elements : List Json)
  /-- Members in the order of the text; a key may be missing as a string may be broken. -/
  | object (members : List (Option String × Json))
deriving Inhabited

namespace Json

def record (members : List (String × Json)) : Json :=
  .object (members.map fun (key, value) => (some key, value))

def ofNat (n : Nat) : Json := .number (toString n)

def ofInt (n : Int) : Json := .number (toString n)

def ofOption (f : α → Json) : Option α → Json
  | some a => f a
  | none => .null

/-- Floats have as many digits as are needed to read them back. From `1e-5` up to below `1e16` they
are written in full, and whole numbers end in `.0`. -/
def floatLayout : Number.Layout where
  tie := .toEven
  positional := some (-5, 15)
  pointZero := true

/-- A float; the infinities and what is no number are null. -/
def ofFloat (x : Float) : Json :=
  if x.isFinite then .number (floatLayout.text x) else .null

private def hexDigit (n : Nat) : Char := (Nat.digitChar n)

def escape (c : Char) : List Char :=
  match c with
  | '"' => ['\\', '"']
  | '\\' => ['\\', '\\']
  | '\n' => ['\\', 'n']
  | '\r' => ['\\', 'r']
  | '\t' => ['\\', 't']
  | '\x08' => ['\\', 'b']
  | '\x0c' => ['\\', 'f']
  | c =>
    if c.toNat < 32 then
      ['\\', 'u', '0', '0', hexDigit (c.toNat / 16), hexDigit (c.toNat % 16)]
    else [c]

def quote (text : String) : String :=
  String.ofList ('"' :: text.toList.flatMap escape ++ ['"'])

private def keyText (key : Option String) : String := quote (key.getD "")

mutual

/-- The value on a single line, without blanks. -/
def compact : Json → String
  | .null => "null"
  | .bool true => "true"
  | .bool false => "false"
  | .number literal => literal
  | .string text => quote text
  | .brokenString => quote ""
  | .array elements => "[" ++ ",".intercalate (compactElements elements) ++ "]"
  | .object members => "\x7b" ++ ",".intercalate (compactMembers members) ++ "\x7d"

private def compactElements : List Json → List String
  | [] => []
  | value :: rest => compact value :: compactElements rest

private def compactMembers : List (Option String × Json) → List String
  | [] => []
  | (key, value) :: rest => (keyText key ++ ":" ++ compact value) :: compactMembers rest

end

/-- Lines of a list or an object, between its brackets. -/
private def block (indent : Nat) (opener closer : String) (items : List String) : String :=
  if items.isEmpty then opener ++ closer
  else
    let line := "\n" ++ String.ofList (List.replicate (indent + 2) ' ')
    let last := "\n" ++ String.ofList (List.replicate indent ' ')
    opener ++ line ++ ("," ++ line).intercalate items ++ last ++ closer

mutual

/-- The value with an element or member to a line, two blanks deeper than the line it opens on. -/
def prettyAt (indent : Nat) : Json → String
  | .array elements => block indent "[" "]" (prettyElements (indent + 2) elements)
  | .object members => block indent "\x7b" "\x7d" (prettyMembers (indent + 2) members)
  | value => compact value

private def prettyElements (indent : Nat) : List Json → List String
  | [] => []
  | value :: rest => prettyAt indent value :: prettyElements indent rest

private def prettyMembers (indent : Nat) : List (Option String × Json) → List String
  | [] => []
  | (key, value) :: rest =>
    (keyText key ++ ": " ++ prettyAt indent value) :: prettyMembers indent rest

end

def pretty (value : Json) : String := value.prettyAt 0

end Json

end Worksheet
