import Worksheet.Number.Numeral
import Worksheet.Text.Blank
import Worksheet.Text.Group
import Worksheet.Text.Letter
import Worksheet.Text.Size
import Worksheet.Text.Word
import Worksheet.Token.Basic
import Worksheet.Token.UnitText
/-!
# Scanning

A text is cut into pieces, each of which is a token, layout without a meaning, or something that
cannot be read. The pieces follow each other without a gap, so the text of a piece alone gives its
place.
-/

namespace Worksheet

open Text

structure ScanRules where
  mode : Mode
  /-- Bare words that stand for units. -/
  isUnitWord : String → Bool := fun _ => false

/-- What cannot be read, in bytes from the beginning of its piece. -/
structure Misread where
  code : ErrorCode
  start : Nat
  stop : Nat
deriving DecidableEq, Inhabited

inductive Meaning where
  | layout
  | token (kind : Token.Kind)
  | misread (fault : Misread)
deriving DecidableEq, Inhabited

structure Piece where
  text : List Char
  meaning : Meaning
deriving DecidableEq, Inhabited

namespace Piece

def layout (text : List Char) : Piece := ⟨text, .layout⟩

def token (text : List Char) (kind : Token.Kind) : Piece := ⟨text, .token kind⟩

def wrong (text : List Char) (code : ErrorCode) : Piece :=
  ⟨text, .misread ⟨code, 0, byteSize text⟩⟩

end Piece

namespace Scan

/-- Functions that have a command of their own. -/
def functionCommands : List String :=
  ["sin", "cos", "tan", "sinh", "cosh", "tanh", "arcsin", "arccos", "arctan", "exp", "ln", "log",
    "max", "min"]

def greekLetters : List String :=
  ["alpha", "beta", "gamma", "delta", "epsilon", "varepsilon", "zeta", "eta", "theta", "vartheta",
    "iota", "kappa", "lambda", "mu", "nu", "xi", "pi", "rho", "sigma", "tau", "upsilon", "phi",
    "varphi", "chi", "psi", "omega", "Gamma", "Delta", "Theta", "Lambda", "Xi", "Pi", "Sigma",
    "Upsilon", "Phi", "Psi", "Omega"]

/-- Commands for sizes and spaces, which do not change what an expression says. -/
def layoutCommands : List String :=
  ["left", "right", "big", "Big", "bigg", "Bigg", "bigl", "bigr", "Bigl", "Bigr", "quad", "qquad",
    "displaystyle", "textstyle"]

def matrixEnvironments : List String := ["matrix", "bmatrix", "pmatrix"]

/-- Signs that unit symbols may contain although words may not. -/
def isUnitSign (c : Char) : Bool := c = '$' || c = '°' || c = 'µ' || c = 'Ω'

def startsName (mode : Mode) (c : Char) : Bool :=
  match mode with
  | .equation => isWordStart c
  | .units => isWordStart c || isUnitSign c

/-- An underscore begins a subscript, and digits after a unit are an exponent. -/
def continuesName (mode : Mode) (c : Char) : Bool :=
  match mode with
  | .equation => isWordContinue c && c != '_'
  | .units => (isWordContinue c && !c.isDigit && c != '_') || isUnitSign c

/-- A subscript or a prime at the beginning of a text, or nothing if there is none. -/
def decoration : List Char → Except Misread (List Char)
  | '_' :: '\x7b' :: cs =>
    match untilClosed 0 cs with
    | some (body, _) => .ok ('_' :: '\x7b' :: body ++ ['\x7d'])
    | none => .error ⟨.unclosedGroup, 0, 2 + byteSize cs⟩
  | '_' :: '\\' :: cs =>
    match cs.takeWhile Char.isAlpha with
    | [] => .error ⟨.unrecognizedToken, 0, 2⟩
    | name => .ok ('_' :: '\\' :: name)
  | '_' :: cs =>
    match cs.takeWhile isLetterOrNumber with
    | [] => .error ⟨.unrecognizedToken, 0, 1⟩
    | run => .ok ('_' :: run)
  | '\'' :: _ => .ok ['\'']
  | cs =>
    let braced := "^\x7b\\prime\x7d".toList
    let bare := "^\\prime".toList
    .ok (if braced.isPrefixOf cs then braced else if bare.isPrefixOf cs then bare else [])

/-- Puts a character before a text; what is wrong with the text moves behind it. -/
def following (c : Char) : Except Misread (List Char) → Except Misread (List Char)
  | .ok cs => .ok (c :: cs)
  | .error fault => .error ⟨fault.code, c.utf8Size + fault.start, c.utf8Size + fault.stop⟩

/-- All subscripts and primes at the beginning of a text. The first argument counts characters that
belong to the one before. -/
def decorationsFrom : Nat → List Char → Except Misread (List Char)
  | _, [] => .ok []
  | n + 1, c :: cs => following c (decorationsFrom n cs)
  | 0, c :: cs =>
    match decoration (c :: cs) with
    | .error fault => .error fault
    | .ok [] => .ok []
    | .ok (_ :: more) => following c (decorationsFrom more.length cs)

def decorate (name rest : List Char) : Except Misread (List Char) :=
  name.foldr following (decorationsFrom 0 rest)

def isCalled (rest : List Char) : Bool := (trimStart rest).head? = some '('

/-- A name, or a bare word that stands for a unit, at the beginning of a text. -/
def namePiece (rules : ScanRules) (c : Char) (cs : List Char) : Piece :=
  let base := c :: cs.takeWhile (continuesName rules.mode)
  let rest := cs.dropWhile (continuesName rules.mode)
  let word := String.ofList base
  match rules.mode with
  | .units => .token base (.ident word)
  | .equation =>
    match decorate base rest with
    | .error fault => ⟨base, .misread fault⟩
    | .ok name =>
      if name = base ∧ rules.isUnitWord word ∧ !isCalled rest then .token base (.unit word)
      else .token name (.ident (String.ofList name))

/-- What is left of a number that has been cut off too early, as in `1.2.3`, `1e+` and `2e`. -/
def excess : List Char → List Char
  | '.' :: cs => '.' :: cs.takeWhile fun c => c.isDigit || c = '.'
  | c :: cs =>
    if Number.Numeral.isExponentMark c then
      match cs with
      | [] => [c]
      | d :: _ => if d = '+' || d = '-' then [c, d] else if isLetter d then [] else [c]
    else []
  | [] => []

def numberPiece (c : Char) (cs : List Char) : Piece :=
  match Number.Numeral.split? (c :: cs) with
  | none => .wrong [c] .malformedNumber
  | some (number, rest) =>
    match excess rest with
    | [] => .token number (.num (String.ofList number))
    | more => .wrong (number ++ more) .malformedNumber

/-- The group that a command takes, after blanks: the piece up to its end and what is inside. -/
def argument (code : ErrorCode) (command rest : List Char) : Except Piece (List Char × List Char) :=
  let gap := rest.takeWhile isBlank
  match trimStart rest with
  | '\x7b' :: cs =>
    match untilClosed 0 cs with
    | some (body, _) => .ok (command ++ gap ++ '\x7b' :: body ++ ['\x7d'], body)
    | none => .error (.wrong (command ++ rest) code)
  | _ => .error (.wrong (command ++ gap) code)

/-- A backslash and a character that is not a letter. Two backslashes end a row of a matrix. -/
def signPiece (mode : Mode) (depth : Nat) (c : Char) : Piece :=
  let text := ['\\', c]
  if c = '\\' && 0 < depth then .token text .comma
  else if c = '\\' || c = ',' || c = ';' || c = ':' || c = '!' || c = ' ' then .layout text
  else if c = '\x7b' then .token text .lbrace
  else if c = '\x7d' then .token text .rbrace
  else if c = '%' then
    match mode with
    | .units => .token text (.ident "%")
    | .equation => .token text (.unit "%")
  else .wrong text .unknownCommand

/-- The begin or the end of a matrix, which is written like the bracket of an array, and the
number of matrices that are open after it. -/
def environmentPiece (depth : Nat) (opens : Bool) (command rest : List Char) : Piece × Nat :=
  match argument .unclosedGroup command rest with
  | .error piece => (piece, depth)
  | .ok (text, body) =>
    if matrixEnvironments.contains (String.ofList (trim body)) then
      if opens then (.token text .lbracket, depth + 1) else (.token text .rbracket, depth - 1)
    else (.wrong text .unknownCommand, depth)

def commandPiece (depth : Nat) (letters rest : List Char) : Piece × Nat :=
  let text := '\\' :: letters
  let name := String.ofList letters
  if UnitText.wrappers.contains name then
    match argument .unclosedUnit text rest with
    | .error piece => (piece, depth)
    | .ok (text, body) =>
      (.token text (.unit (String.ofList (UnitText.plain body))), depth)
  else if layoutCommands.contains name then
    match rest with
    | '.' :: _ => (.layout (text ++ ['.']), depth)
    | _ => (.layout text, depth)
  else if functionCommands.contains name then (.token text (.function name), depth)
  else if greekLetters.contains name then
    match decorate text rest with
    | .ok name => (.token name (.ident (String.ofList name)), depth)
    | .error fault => (⟨text, .misread fault⟩, depth)
  else if name = "frac" || name = "dfrac" || name = "tfrac" then (.token text .frac, depth)
  else if name = "sqrt" then (.token text .sqrt, depth)
  else if name = "cdot" || name = "times" || name = "ast" then (.token text .mul, depth)
  else if name = "div" then (.token text .div, depth)
  else if name = "operatorname" then
    match argument .unclosedGroup text rest with
    | .error piece => (piece, depth)
    | .ok (text, body) => (.token text (.function (String.ofList (trim body))), depth)
  else if name = "begin" then environmentPiece depth true text rest
  else if name = "end" then environmentPiece depth false text rest
  else (.wrong text .unknownCommand, depth)

def sign? : Char → Option Token.Kind
  | '+' => some .plus
  | '-' | '\u2212' => some .minus
  | '*' | '\u00b7' | '\u00d7' | '\u22c5' => some .mul
  | '/' => some .div
  | '^' => some .exp
  | '(' => some .lparen
  | ')' => some .rparen
  | '[' => some .lbracket
  | ']' => some .rbracket
  | '\x7b' => some .lbrace
  | '\x7d' => some .rbrace
  | ',' => some .comma
  | _ => none

def startsNumber (c : Char) (cs : List Char) : Bool :=
  c.isDigit || (c = '.' && cs.head?.any Char.isDigit)

/-- The piece that a text begins with, and the number of matrices that are open after it. -/
def nextPiece (rules : ScanRules) (depth : Nat) (c : Char) (cs : List Char) : Piece × Nat :=
  if c = '\\' then
    match cs with
    | [] => (.wrong [c] .unknownCommand, depth)
    | d :: ds =>
      if d.isAlpha then
        commandPiece depth (d :: ds.takeWhile Char.isAlpha) (ds.dropWhile Char.isAlpha)
      else (signPiece rules.mode depth d, depth)
  else
    match sign? c with
    | some kind => (.token [c] kind, depth)
    | none =>
      (if c = '&' && 0 < depth then .token [c] .comma
      else if c = '%' then
        match rules.mode with
        | .units => .token [c] (.ident "%")
        | .equation => .token [c] (.unit "%")
      else if c = '~' || isBlank c then .layout [c]
      else if startsNumber c cs then numberPiece c cs
      else if startsName rules.mode c then namePiece rules c cs
      else .wrong [c] (if c = '.' then .malformedNumber else .unrecognizedToken), depth)

/-- The pieces of a text. The arguments are the number of matrices that are open and of characters
that belong to the piece before. -/
def piecesFrom (rules : ScanRules) : Nat → Nat → List Char → List Piece
  | _, _, [] => []
  | depth, n + 1, _ :: cs => piecesFrom rules depth n cs
  | depth, 0, c :: cs =>
    let (piece, depth) := nextPiece rules depth c cs
    piece :: piecesFrom rules depth (piece.text.length - 1) cs

def pieces (rules : ScanRules) (text : List Char) : List Piece := piecesFrom rules 0 0 text

def place : Nat → List Piece → List (Except SourceError Token)
  | _, [] => []
  | start, piece :: rest =>
    let stop := start + byteSize piece.text
    match piece.meaning with
    | .layout => place stop rest
    | .token kind => .ok ⟨kind, start, stop⟩ :: place stop rest
    | .misread fault =>
      .error ⟨fault.code, Span.ofBytes (start + fault.start) (start + fault.stop)⟩ ::
        place stop rest

end Scan

/-- All tokens of a text, with an error wherever it cannot be read. -/
def scan (rules : ScanRules) (text : String) : List (Except SourceError Token) :=
  Scan.place 0 (Scan.pieces rules text.toList)

/-- The tokens of a text, or its first error. -/
def tokens (rules : ScanRules) (text : String) : Except SourceError (List Token) :=
  (scan rules text).mapM id

end Worksheet
