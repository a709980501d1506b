import Worksheet.Error
/-!
# Tokens

The words and signs of the two small languages: equations, and products of units.
-/

namespace Worksheet

inductive Mode where
  | equation
  | units
deriving DecidableEq, Inhabited

namespace Token

inductive Kind where
  | plus | minus | mul | div | exp
  | lparen | rparen | lbracket | rbracket | lbrace | rbrace
  | comma | frac | sqrt
  /-- A function written as a command, by its bare name. -/
  | function (name : String)
  /-- A product of units, in its plain spelling. -/
  | unit (text : String)
  /-- A name, with its subscripts and primes. -/
  | ident (text : String)
  | num (text : String)
deriving DecidableEq, Inhabited

namespace Kind

def name : Kind → String
  | plus => "plus"
  | minus => "minus"
  | mul => "mul"
  | div => "div"
  | exp => "exp"
  | lparen => "lparen"
  | rparen => "rparen"
  | lbracket => "lbracket"
  | rbracket => "rbracket"
  | lbrace => "lbrace"
  | rbrace => "rbrace"
  | comma => "comma"
  | frac => "frac"
  | sqrt => "sqrt"
  | function _ => "function"
  | unit _ => "unit"
  | ident _ => "ident"
  | num _ => "num"

def text? : Kind → Option String
  | function text | unit text | ident text | num text => some text
  | _ => none

/-- May begin the right side of a product without a sign, like the `x` of `2x`. -/
def startsOperand : Kind → Bool
  | num _ | ident _ | unit _ | function _ | frac | sqrt | lparen | lbrace | lbracket => true
  | _ => false

def isCloser : Kind → Bool
  | rparen | rbracket | rbrace => true
  | _ => false

end Kind

end Token

/-- A token and the bytes that it covers. -/
structure Token where
  kind : Token.Kind
  start : Nat
  stop : Nat
deriving DecidableEq, Inhabited

end Worksheet
