import Worksheet.Expr.Scope
import Worksheet.Token.Scan
/-!
# Parsing expressions

Recursive descent over the tokens. From loose to tight bind: sums, products with a sign, products
by juxtaposition, the sign of a number, powers, which group to the right, and subscripts. Names get
their meaning here, so a tree stays as it was read.
-/

namespace Worksheet

/-- What was read from the beginning of `n` tokens, and the tokens after it. -/
structure Reading (n : Nat) (α : Type) where
  value : α
  rest : List Token
  shorter : rest.length < n

namespace Expr

def sumOp? : Token.Kind → Option BinaryOp
  | .plus => some .add
  | .minus => some .sub
  | _ => none

def productOp? : Token.Kind → Option BinaryOp
  | .mul => some .mul
  | .div => some .div
  | _ => none

def sign? : Token.Kind → Option Sign
  | .plus => some .positive
  | .minus => some .negative
  | _ => none

def join (op : BinaryOp) (left right : Expr) : Expr :=
  binary (left.span.union right.span) op left right

def faultAt (code : ErrorCode) (t : Token) : SourceError :=
  ⟨code, Span.ofBytes t.start t.stop⟩

/-- The error at the end of the text, which the last token ends at. -/
def endFault (last : Nat) : SourceError := ⟨.unrecognizedEof, Span.ofBytes last (last + 1)⟩

/-- Takes the token that closes what `opener` opened, and gives the place where it ends. -/
def close (closer : Token.Kind) (opener : Token) (ts : List Token) :
    Except SourceError (Reading ts.length Nat) :=
  match ts with
  | [] => .error (faultAt .unmatchedBracket opener)
  | t :: rest =>
    if t.kind = closer then .ok ⟨t.stop, rest, by simp⟩
    else .error (faultAt (if t.kind.isCloser then .unmatchedBracket else .unrecognizedToken) t)

/-- Cuts the first digit off a number that begins with two digits. -/
def splitDigit? (number : String) : Option (Char × String) :=
  match number.toList with
  | c :: d :: cs =>
    if c.isDigit && d.isDigit then some (c, String.ofList (d :: cs)) else none
  | _ => none

/-- The number of parameters of what is called, as far as it is known when the text is read. -/
def acceptsCount (callee : Callee) (arity : Option Nat) (count : Nat) : Bool :=
  match callee with
  | .builtin function => function.arity.accepts count
  | .user _ => arity.all (· = count)
  | .unresolved => true

def callOf (name : Name) (callee : Callee) (arity : Option Nat) (args : List Expr)
    (span : Span) : Except SourceError Expr :=
  if acceptsCount callee arity args.length then .ok (call span name callee args)
  else .error ⟨.badArity, span⟩

inductive Use where
  /-- It stands for a value or a unit, whatever follows. -/
  | operand (e : Expr)
  /-- It is called, with as many arguments as its function takes. -/
  | call (callee : Callee) (arity : Option Nat)

/-- A name is looked up among the parameters, the bound names, the builtins and the units, in this
order. A value before parentheses is a factor, not a function. -/
def useOf (scope : Scope) (spelling : String) (span : Span) (called : Bool) : Use :=
  let name := Name.ofSpelling spelling
  let free : Use :=
    if called then
      match Builtin.ofName? name.text with
      | some function => .call (.builtin function) none
      | none => .call .unresolved none
    else
      match (Builtin.ofName? name.text).filter Builtin.isConstant with
      | some function => .operand (call span name (.builtin function) [])
      | none =>
        if scope.isUnitSymbol name then .operand (unit span spelling)
        else .operand (var span name .unresolved)
  match scope.mode with
  | .units => if called then .call .unresolved none else .operand (var span name .unresolved)
  | .equation =>
    match scope.parameter? name with
    | some i => .operand (var span name (.parameter i))
    | none =>
      match scope.resolve name with
      | some (.value id) => .operand (var span name (.symbol id))
      | some (.function id arity) =>
        if called then .call (.user id) (some arity)
        else if scope.isUnitSymbol name then free
        else .operand (var span name (.symbol id))
      | none => free

def commandCallee (scope : Scope) (name : Name) : Callee × Option Nat :=
  match Builtin.ofName? name.text, scope.resolve name with
  | some function, _ => (.builtin function, none)
  | none, some (.function id arity) => (.user id, some arity)
  | none, _ => (.unresolved, none)

def isOpen (ts : List Token) : Bool := ts.head?.any fun t => t.kind = .lparen

mutual

/-- A sum, or anything that binds tighter. -/
def sum (scope : Scope) (last : Nat) (ts : List Token) :
    Except SourceError (Reading ts.length Expr) := do
  let ⟨left, rest, h⟩ ← product scope last ts
  sumFrom scope last ts.length left rest h
termination_by 10 * ts.length + 6

def sumFrom (scope : Scope) (last n : Nat) (left : Expr) (ts : List Token)
    (shorter : ts.length < n) : Except SourceError (Reading n Expr) :=
  match ts with
  | [] => .ok ⟨left, [], shorter⟩
  | t :: more =>
    match sumOp? t.kind with
    | none => .ok ⟨left, t :: more, shorter⟩
    | some op => do
      let ⟨right, rest, h⟩ ← product scope last more
      sumFrom scope last n (join op left right) rest (by simp at shorter; omega)
termination_by 10 * ts.length + 9

/-- A product with a sign, or anything that binds tighter. -/
def product (scope : Scope) (last : Nat) (ts : List Token) :
    Except SourceError (Reading ts.length Expr) := do
  let ⟨left, rest, h⟩ ← juxtaposed scope last ts
  productFrom scope last ts.length left rest h
termination_by 10 * ts.length + 5

def productFrom (scope : Scope) (last n : Nat) (left : Expr) (ts : List Token)
    (shorter : ts.length < n) : Except SourceError (Reading n Expr) :=
  match ts with
  | [] => .ok ⟨left, [], shorter⟩
  | t :: more =>
    match productOp? t.kind with
    | none => .ok ⟨left, t :: more, shorter⟩
    | some op => do
      let ⟨right, rest, h⟩ ← juxtaposed scope last more
      productFrom scope last n (join op left right) rest (by simp at shorter; omega)
termination_by 10 * ts.length + 9

/-- A product by juxtaposition, or anything that binds tighter. -/
def juxtaposed (scope : Scope) (last : Nat) (ts : List Token) :
    Except SourceError (Reading ts.length Expr) := do
  let ⟨left, rest, h⟩ ← signedTerm scope last ts
  juxtaposedFrom scope last ts.length left rest h
termination_by 10 * ts.length + 4

def juxtaposedFrom (scope : Scope) (last n : Nat) (left : Expr) (ts : List Token)
    (shorter : ts.length < n) : Except SourceError (Reading n Expr) :=
  match ts with
  | [] => .ok ⟨left, [], shorter⟩
  | t :: more =>
    if t.kind.startsOperand then do
      let ⟨right, rest, h⟩ ← power scope last (t :: more)
      have h' : rest.length < more.length + 1 := h
      juxtaposedFrom scope last n (join .mul left right) rest (Nat.lt_trans h' shorter)
    else .ok ⟨left, t :: more, shorter⟩
termination_by 10 * ts.length + 9
decreasing_by
  · exact Nat.add_lt_add_left (by decide) _
  · exact Nat.add_lt_add_right ((Nat.mul_lt_mul_left (by decide)).mpr h') 9

def signedTerm (scope : Scope) (last : Nat) (ts : List Token) :
    Except SourceError (Reading ts.length Expr) :=
  match ts with
  | [] => power scope last []
  | t :: more =>
    match sign? t.kind with
    | none => power scope last (t :: more)
    | some sign => do
      let ⟨operand, rest, h⟩ ← signedTerm scope last more
      .ok ⟨signed (Span.ofBytes t.start operand.span.stop) sign operand, rest, by simp; omega⟩
termination_by 10 * ts.length + 3

/-- A power, whose exponent may have a sign and be a power itself. -/
def power (scope : Scope) (last : Nat) (ts : List Token) :
    Except SourceError (Reading ts.length Expr) := do
  let ⟨base, rest, h⟩ ← subscripted scope last ts
  match rest, h with
  | [], h => .ok ⟨base, [], h⟩
  | t :: more, h =>
    if t.kind = .exp then
      have shorter : more.length + 1 < ts.length := by simpa using h
      let ⟨exponent, rest, h'⟩ ← signedTerm scope last more
      .ok ⟨join .exp base exponent, rest, by omega⟩
    else .ok ⟨base, t :: more, h⟩
termination_by 10 * ts.length + 2

def subscripted (scope : Scope) (last : Nat) (ts : List Token) :
    Except SourceError (Reading ts.length Expr) := do
  let ⟨base, rest, h⟩ ← operand scope last ts
  subscriptedFrom scope last ts.length base rest h
termination_by 10 * ts.length + 1

def subscriptedFrom (scope : Scope) (last n : Nat) (base : Expr) (ts : List Token)
    (shorter : ts.length < n) : Except SourceError (Reading n Expr) :=
  match ts with
  | [] => .ok ⟨base, [], shorter⟩
  | t :: more =>
    if t.kind = .lbracket ∧ base.isIndexable then do
      let ⟨position, rest, h⟩ ← sum scope last more
      let ⟨stop, rest, h'⟩ ← close .rbracket t rest
      subscriptedFrom scope last n (index (Span.ofBytes base.span.start stop) base position) rest
        (by simp at shorter; omega)
    else .ok ⟨base, t :: more, shorter⟩
termination_by 10 * ts.length + 9

/-- A number, a name, a unit, a call, a fraction, a root, an array or a group. -/
def operand (scope : Scope) (last : Nat) (ts : List Token) :
    Except SourceError (Reading ts.length Expr) :=
  match ts with
  | [] => .error (endFault last)
  | t :: more =>
    let span := Span.ofBytes t.start t.stop
    match t.kind with
    | .num literal =>
      match Number.Numeral.value? literal.toList with
      | some value => .ok ⟨const span literal value, more, by simp⟩
      | none => .error ⟨.expectedNumber, span⟩
    | .unit text => .ok ⟨unit span text, more, by simp⟩
    | .ident spelling =>
      match useOf scope spelling span (isOpen more) with
      | .operand e => .ok ⟨e, more, by simp⟩
      | .call callee arity => do
        let ⟨(args, stop), rest, h⟩ ← arguments scope last more
        let e ← callOf (Name.ofSpelling spelling) callee arity args (Span.ofBytes t.start stop)
        .ok ⟨e, rest, by simp; omega⟩
    | .function spelling =>
      let name := Name.ofSpelling spelling
      let (callee, arity) := commandCallee scope name
      if isOpen more then do
        let ⟨(args, stop), rest, h⟩ ← arguments scope last more
        let e ← callOf name callee arity args (Span.ofBytes t.start stop)
        .ok ⟨e, rest, by simp; omega⟩
      else if more.isEmpty then .error ⟨.unrecognizedEof, span⟩
      else do
        let ⟨arg, rest, h⟩ ← bareArgument scope last more
        let e ← callOf name callee arity [arg] (Span.ofBytes t.start arg.span.stop)
        .ok ⟨e, rest, by simp; omega⟩
    | .frac => do
      let ⟨numerator, rest, h⟩ ← fractionPart scope last more
      let ⟨denominator, rest, h'⟩ ← fractionPart scope last rest
      .ok ⟨binary (Span.ofBytes t.start denominator.span.stop) .div numerator denominator, rest,
        by simp; omega⟩
    | .sqrt => do
      let ⟨e, rest, h⟩ ← root scope last t more
      .ok ⟨e, rest, by simp; omega⟩
    | .lparen => do
      let ⟨inner, rest, h⟩ ← sum scope last more
      let ⟨stop, rest, h'⟩ ← close .rparen t rest
      .ok ⟨group (Span.ofBytes t.start stop) inner, rest, by simp; omega⟩
    | .lbrace => do
      let ⟨inner, rest, h⟩ ← sum scope last more
      let ⟨stop, rest, h'⟩ ← close .rbrace t rest
      .ok ⟨group (Span.ofBytes t.start stop) inner, rest, by simp; omega⟩
    | .lbracket =>
      match more with
      | [] => .error (endFault last)
      | u :: more =>
        if u.kind = .rbracket then .error ⟨.emptyArray, Span.ofBytes t.start u.stop⟩
        else do
          let ⟨elements, rest, h⟩ ← listed scope last (u :: more)
          let ⟨stop, rest, h'⟩ ← close .rbracket t rest
          .ok ⟨array (Span.ofBytes t.start stop) elements, rest, by simp at h ⊢; omega⟩
    | .rparen | .rbracket | .rbrace => .error ⟨.unmatchedBracket, span⟩
    | .plus | .minus | .mul | .div | .exp | .comma => .error ⟨.unrecognizedToken, span⟩
termination_by 10 * ts.length

/-- The root of an operand: the square root, or any root whose number stands in brackets. -/
def root (scope : Scope) (last : Nat) (command : Token) (ts : List Token) :
    Except SourceError (Reading ts.length Expr) :=
  match ts with
  | [] => .error (endFault last)
  | t :: more =>
    if t.kind = .lbracket then do
      let ⟨degree, rest, h⟩ ← sum scope last more
      let ⟨_, rest, h'⟩ ← close .rbracket t rest
      let ⟨radicand, rest, h''⟩ ← operand scope last rest
      let one := const (Span.ofBytes command.start command.stop) "1" 1
      let exponent := group degree.span (binary degree.span .div one degree)
      .ok ⟨binary (Span.ofBytes command.start radicand.span.stop) .exp radicand exponent, rest,
        by simp; omega⟩
    else do
      let ⟨radicand, rest, h⟩ ← operand scope last (t :: more)
      .ok ⟨call (Span.ofBytes command.start radicand.span.stop) (Name.ofSpelling "sqrt")
        (.builtin .sqrt) [radicand], rest, h⟩
termination_by 10 * ts.length + 1

/-- The argument of a command without parentheses: a group in braces, or a signed power. -/
def bareArgument (scope : Scope) (last : Nat) (ts : List Token) :
    Except SourceError (Reading ts.length Expr) :=
  if ts.head?.any fun t => t.kind = .lbrace then operand scope last ts
  else signedTerm scope last ts
termination_by 10 * ts.length + 4

/-- A part of a fraction. Without braces it is a single digit, and the digits after it stay. -/
def fractionPart (scope : Scope) (last : Nat) (ts : List Token) :
    Except SourceError (Reading (ts.length + 1) Expr) :=
  match ts with
  | ⟨.num literal, start, stop⟩ :: more =>
    match splitDigit? literal with
    | some (digit, others) =>
      .ok ⟨const (Span.ofBytes start (start + 1)) (String.singleton digit)
        (Float.ofNat (Text.digitValue digit)), ⟨.num others, start + 1, stop⟩ :: more, by simp⟩
    | none => do
      let ⟨e, rest, h⟩ ← operand scope last (⟨.num literal, start, stop⟩ :: more)
      .ok ⟨e, rest, by omega⟩
  | ts => do
    let ⟨e, rest, h⟩ ← operand scope last ts
    .ok ⟨e, rest, by omega⟩
termination_by 10 * ts.length + 1

def listed (scope : Scope) (last : Nat) (ts : List Token) :
    Except SourceError (Reading ts.length (List Expr)) := do
  let ⟨first, rest, h⟩ ← sum scope last ts
  match rest, h with
  | [], h => .ok ⟨[first], [], h⟩
  | t :: more, h =>
    if t.kind = .comma then
      have shorter : more.length + 1 < ts.length := by simpa using h
      let ⟨others, rest, h'⟩ ← listed scope last more
      .ok ⟨first :: others, rest, by omega⟩
    else .ok ⟨[first], t :: more, h⟩
termination_by 10 * ts.length + 7

def arguments (scope : Scope) (last : Nat) (ts : List Token) :
    Except SourceError (Reading ts.length (List Expr × Nat)) :=
  match ts with
  | [] => .error (endFault last)
  | t :: more => do
    if more.head?.any fun u => u.kind = .rparen then
      let ⟨stop, rest, h⟩ ← close .rparen t more
      .ok ⟨([], stop), rest, by simp; omega⟩
    else
      let ⟨args, rest, h⟩ ← listed scope last more
      let ⟨stop, rest, h'⟩ ← close .rparen t rest
      .ok ⟨(args, stop), rest, by simp; omega⟩
termination_by 10 * ts.length

end

/-- The tree of all tokens, or nothing where there are none. -/
def ofTokens (scope : Scope) (ts : List Token) : Except SourceError (Option Expr) :=
  if ts.isEmpty then .ok none
  else do
    let last := (ts.getLast?.map Token.stop).getD 0
    let ⟨e, rest, _⟩ ← sum scope last ts
    match rest with
    | [] => .ok (some e)
    | t :: _ =>
      .error (faultAt (if t.kind.isCloser then .unmatchedBracket else .extraToken) t)

/-- The tree of a text, or nothing where the text says nothing. -/
def parse (scope : Scope) (text : String) : Except SourceError (Option Expr) := do
  ofTokens scope (← tokens ⟨scope.mode, scope.isUnitWord⟩ text)

end Expr

end Worksheet
