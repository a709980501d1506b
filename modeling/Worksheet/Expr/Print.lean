import Worksheet.Expr.Basic
/-!
# Printing expressions

An expression as a line of plain text.
-/

namespace Worksheet

def Sign.symbol : Sign → String
  | .positive => "+"
  | .negative => "-"

def BinaryOp.symbol : BinaryOp → String
  | .add => "+"
  | .sub => "-"
  | .exp => "^"
  | .mul => "*"
  | .div => "/"

namespace Expr

mutual

/-- Binary signs stand between blanks, and groups keep their parentheses. -/
def print : Expr → String
  | const _ literal _ => literal
  | var _ name _ => name.text
  | unit _ text => "[" ++ text ++ "]"
  | call _ name _ args => name.text ++ "(" ++ ", ".intercalate (printList args) ++ ")"
  | array _ elements => "[" ++ ", ".intercalate (printList elements) ++ "]"
  | index _ base position => base.print ++ "[" ++ position.print ++ "]"
  | signed _ sign operand => sign.symbol ++ operand.print
  | binary _ op left right => left.print ++ " " ++ op.symbol ++ " " ++ right.print
  | group _ inner => "(" ++ inner.print ++ ")"

def printList : List Expr → List String
  | [] => []
  | e :: es => e.print :: printList es

end

end Expr

end Worksheet
