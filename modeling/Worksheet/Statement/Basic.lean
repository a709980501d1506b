import Worksheet.Name
import Worksheet.Statement.Result
import Worksheet.Token.Scan
/-!
# Statements

A statement defines a function, `f(x) := body`, binds a name, `name := expr`, or shows a value,
`expr ==` or `expr =>`; a binding may show its value too.
-/

namespace Worksheet

open Text

/-- A part of a statement, and the byte that it starts at. -/
structure Fragment where
  text : String
  offset : Nat
deriving DecidableEq, Inhabited

namespace Fragment

def trimmed (f : Fragment) : String := String.ofList (trim f.text.toList)

def trimmedOffset (f : Fragment) : Nat := f.offset + byteSize (f.text.toList.takeWhile isBlank)

def span (f : Fragment) : Span :=
  Span.ofBytes f.trimmedOffset (f.trimmedOffset + byteSize (trim f.text.toList))

end Fragment

inductive Display where
  /-- In the unit of the hint, or else in readable units. -/
  | convert (hint : Option String)
  /-- As it was computed. -/
  | raw
deriving DecidableEq, Inhabited

inductive Statement where
  /-- The spans are those of the parameters. -/
  | definition (name : Fragment) (params : List Name) (spans : List Span) (body : Fragment)
  | assignment (name expr : Fragment) (display : Option Display)
  | display (expr : Fragment) (display : Display)
deriving DecidableEq, Inhabited

def Statement.display? : Statement → Option Display
  | .definition .. => none
  | .assignment _ _ shown => shown
  | .display _ shown => some shown

/-- A statement, and the text that its result comes after: all up to the display operator, or the
whole statement if nothing is shown. -/
structure ParsedStatement where
  statement : Statement
  lead : String
deriving DecidableEq, Inhabited

namespace Statement

inductive Operator where
  | assign
  | convert
  | raw
deriving DecidableEq, Inhabited

def Operator.text : Operator → String
  | assign => ":="
  | convert => "=="
  | raw => "=>"

def operator? (c d : Char) : Option Operator :=
  if c = ':' && d = '=' then some .assign
  else if c = '=' && d = '=' then some .convert
  else if c = '=' && d = '>' then some .raw
  else none

/-- How much deeper a text is in brackets after a character. -/
def nesting (c : Char) : Int :=
  if c = '\x7b' || c = '(' || c = '[' then 1
  else if c = '\x7d' || c = ')' || c = ']' then -1
  else 0

/-- Divides a text at the operators that stand in no brackets: the part before the first operator,
and every operator with the part after it. A backslash hides the character after it. -/
def divide (depth : Int) : List Char → List Char × List (Operator × List Char)
  | [] => ([], [])
  | [c] => ([c], [])
  | c :: d :: cs =>
    if c = '\\' then
      let (part, others) := divide depth cs
      (c :: d :: part, others)
    else
      match if depth = 0 then operator? c d else none with
      | some operator =>
        let (part, others) := divide depth cs
        ([], (operator, part) :: others)
      | none =>
        let (part, others) := divide (depth + nesting c) (d :: cs)
        (c :: part, others)

/-- Is a single name, perhaps with subscripts and primes. -/
def isName (cs : List Char) : Bool :=
  match scan { mode := .equation } (String.ofList cs) with
  | [.ok ⟨.ident _, _, _⟩] => true
  | _ => false

def badStatement (start stop : Nat) (details : String) : Error :=
  ⟨.badStatement, Span.ofBytes start stop, some details⟩

/-- Reads parameters that start at some byte; none of them is among the earlier ones. -/
def parameters (start : Nat) (earlier : List Name) :
    List (List Char) → Except Error (List (Name × Span))
  | [] => .ok []
  | part :: parts => do
    let stop := start + byteSize part
    let spelling := trim part
    let name := Name.ofSpelling (String.ofList spelling)
    if !isName spelling then
      throw ⟨.badParameter, Span.ofBytes start stop, some (String.ofList spelling)⟩
    if earlier.contains name then
      throw ⟨.badParameter, Span.ofBytes start stop, some (name.text ++ " is repeated")⟩
    let nameStart := start + byteSize (part.takeWhile isBlank)
    let others ← parameters (stop + 1) (earlier ++ [name]) parts
    return (name, Span.ofBytes nameStart (nameStart + byteSize spelling)) :: others

def functionHead? (name : Fragment) :
    Except Error (Option (Fragment × List (Name × Span))) := do
  let text := trim name.text.toList
  let start := name.trimmedOffset
  let head := text.takeWhile (· != '(')
  match text.dropWhile (· != '(') with
  | '(' :: rest =>
    if rest.getLast? = some ')' then
      if !isName (trim head) then
        throw ⟨.expectedIdent, Span.ofBytes start (start + byteSize head),
          some (String.ofList (trim head))⟩
      let params ← parameters (start + byteSize head + 1) [] (rest.dropLast.splitOn ',')
      return some (⟨String.ofList head, start⟩, params)
    else return none
  | _ => return none

def displayOf (operator : Operator) (tail : List Char) (markup : Option (List Char)) :
    Display :=
  match operator with
  | .raw => .raw
  | _ => .convert (Result.hint? tail markup)

/-- A statement with an assignment. The operator of the display stands at byte `displayAt`. -/
def assigned (lead : String) (name expr : Fragment) (display : Option Display)
    (displayAt : Nat) : Except Error ParsedStatement := do
  match ← functionHead? name with
  | some (head, params) =>
    if display.isSome then
      throw (badStatement displayAt (displayAt + 2)
        "a function definition has no value to display")
    return ⟨.definition head (params.map Prod.fst) (params.map Prod.snd) expr, lead⟩
  | none =>
    if !isName (trim name.text.toList) then
      throw ⟨.expectedIdent, name.span, some name.trimmed⟩
    return ⟨.assignment name expr display, lead⟩

/-- The statement that a text is, divided into its parts. The markup behind it may ask for a
unit. -/
def ofParts (body : List Char) (markup : Option (List Char)) :
    List Char × List (Operator × List Char) → Except Error ParsedStatement
  | (_, []) => .error (badStatement 0 (byteSize body) "expected :=, == or =>")
  | (first, [(.assign, expr)]) =>
    assigned (String.ofList body) ⟨String.ofList first, 0⟩
      ⟨String.ofList expr, byteSize first + 2⟩ none 0
  | (first, [(operator, tail)]) =>
    .ok ⟨.display ⟨String.ofList first, 0⟩ (displayOf operator tail markup),
      String.ofList first ++ operator.text⟩
  | (first, [(.assign, expr), (operator, tail)]) =>
    let displayAt := byteSize first + 2 + byteSize expr
    if operator = .assign then .error (badStatement displayAt (displayAt + 2) "too many operators")
    else
      assigned (String.ofList first ++ ":=" ++ String.ofList expr ++ operator.text)
        ⟨String.ofList first, 0⟩ ⟨String.ofList expr, byteSize first + 2⟩
        (some (displayOf operator tail markup)) displayAt
  | (_, _ :: more) =>
    let last := byteSize body - 2 - ((more.getLast?.map fun part => byteSize part.2).getD 0)
    .error (badStatement last (last + 2) "too many operators")

/-- Reads a statement without its markup. -/
def parseBody (body : List Char) (markup : Option (List Char)) : Except Error ParsedStatement :=
  ofParts body markup (divide 0 body)

/-- Reads a statement, which may have its result and markup behind it. -/
def parse (text : String) : Except Error ParsedStatement :=
  let (body, markup) := Markup.split text.toList
  parseBody (trimEnd body) markup

/-- A statement without its result and markup. It keeps the unit that the result was shown in, so
that the next run shows it in the same. -/
def clear (text : String) : String :=
  match parse text with
  | .error _ => String.ofList (trimEnd (Markup.split text.toList).1)
  | .ok parsed =>
    match parsed.statement.display? with
    | some (.convert (some hint)) => parsed.lead ++ " \\mathrm\x7b" ++ hint ++ "\x7d"
    | _ => parsed.lead

end Statement

end Worksheet
