import Worksheet.Span
/-!
# Errors

What can go wrong in a statement: a code, the kind it belongs to, where it happened and, for some,
the details.
-/

namespace Worksheet

inductive ErrorKind where
  | lex
  | parse
  | undefinedVariable
  | arity
  | unitRedefinition
  | arrayLengthMismatch
  | indexOutOfRange
  | numeric
  | dimension
  | unit
  | internal
deriving DecidableEq, Inhabited

def ErrorKind.name : ErrorKind → String
  | .lex => "LexError"
  | .parse => "ParseError"
  | .undefinedVariable => "UndefinedVariableError"
  | .arity => "ArityError"
  | .unitRedefinition => "UnitRedefinitionError"
  | .arrayLengthMismatch => "ArrayLengthMismatchError"
  | .indexOutOfRange => "IndexOutOfRangeError"
  | .numeric => "NumericError"
  | .dimension => "DimensionError"
  | .unit => "UnitError"
  | .internal => "InternalError"

inductive ErrorCode where
  | unrecognizedToken
  | malformedNumber
  | unclosedUnit
  | unclosedGroup
  | unknownCommand
  | unrecognizedEof
  | extraToken
  | unmatchedBracket
  | expectedNumber
  | expectedIdent
  | emptyArray
  | emptyEquation
  | badStatement
  | badParameter
  | undefinedVariable
  | undefinedFunction
  | notAFunction
  | notAValue
  | badArity
  | unitRedefinition
  | arrayLengthMismatch
  | indexOutOfRange
  | nonIntegerIndex
  | cantIndexScalar
  | divisionByZero
  | notFinite
  | callDepthExceeded
  | dimensionMismatch
  | conversionMismatch
  | dimensionedExponent
  | dimensionedArgument
  | nonIntegerUnitExponent
  | heterogeneousArray
  | unknownUnit
  | noConstInUnits
  | noAppInUnits
  | noIndexInUnits
  | noUnaryOpInUnits
  | badBinaryOpInUnits
  | expectedInteger
  | expectedIntegerOne
  | duplicateUnit
  | unitExponentOverflow
  | unknownSymbolId
deriving DecidableEq, Inhabited

namespace ErrorCode

def kind : ErrorCode → ErrorKind
  | .unrecognizedToken | .malformedNumber | .unclosedUnit | .unclosedGroup
  | .unknownCommand => .lex
  | .unrecognizedEof | .extraToken | .unmatchedBracket | .expectedNumber | .expectedIdent
  | .emptyArray | .emptyEquation | .badStatement | .badParameter => .parse
  | .undefinedVariable | .undefinedFunction | .notAFunction | .notAValue => .undefinedVariable
  | .badArity => .arity
  | .unitRedefinition => .unitRedefinition
  | .arrayLengthMismatch => .arrayLengthMismatch
  | .indexOutOfRange | .nonIntegerIndex | .cantIndexScalar => .indexOutOfRange
  | .divisionByZero | .notFinite | .callDepthExceeded => .numeric
  | .dimensionMismatch | .conversionMismatch | .dimensionedExponent
  | .dimensionedArgument | .nonIntegerUnitExponent | .heterogeneousArray => .dimension
  | .unknownUnit | .noConstInUnits | .noAppInUnits | .noIndexInUnits | .noUnaryOpInUnits
  | .badBinaryOpInUnits | .expectedInteger | .expectedIntegerOne | .duplicateUnit
  | .unitExponentOverflow => .unit
  | .unknownSymbolId => .internal

def name : ErrorCode → String
  | .unrecognizedToken => "unrecognized_token"
  | .malformedNumber => "malformed_number"
  | .unclosedUnit => "unclosed_unit"
  | .unclosedGroup => "unclosed_group"
  | .unknownCommand => "unknown_command"
  | .unrecognizedEof => "unrecognized_eof"
  | .extraToken => "extra_token"
  | .unmatchedBracket => "unmatched_bracket"
  | .expectedNumber => "expected_number"
  | .expectedIdent => "expected_ident"
  | .emptyArray => "empty_array"
  | .emptyEquation => "empty_equation"
  | .badStatement => "bad_statement"
  | .badParameter => "bad_parameter"
  | .undefinedVariable => "undefined_variable"
  | .undefinedFunction => "undefined_function"
  | .notAFunction => "not_a_function"
  | .notAValue => "not_a_value"
  | .badArity => "bad_arity"
  | .unitRedefinition => "unit_redefinition"
  | .arrayLengthMismatch => "array_length_mismatch"
  | .indexOutOfRange => "index_out_of_range"
  | .nonIntegerIndex => "non_integer_index"
  | .cantIndexScalar => "cant_index_scalar"
  | .divisionByZero => "division_by_zero"
  | .notFinite => "not_finite"
  | .callDepthExceeded => "call_depth_exceeded"
  | .dimensionMismatch => "dimension_mismatch"
  | .conversionMismatch => "conversion_mismatch"
  | .dimensionedExponent => "dimensioned_exponent"
  | .dimensionedArgument => "dimensioned_argument"
  | .nonIntegerUnitExponent => "non_integer_unit_exponent"
  | .heterogeneousArray => "heterogeneous_array"
  | .unknownUnit => "unknown_unit"
  | .noConstInUnits => "no_const_in_units"
  | .noAppInUnits => "no_app_in_units"
  | .noIndexInUnits => "no_index_in_units"
  | .noUnaryOpInUnits => "no_unary_op_in_units"
  | .badBinaryOpInUnits => "bad_binary_op_in_units"
  | .expectedInteger => "expected_integer"
  | .expectedIntegerOne => "expected_integer_one"
  | .duplicateUnit => "duplicate_unit"
  | .unitExponentOverflow => "unit_exponent_overflow"
  | .unknownSymbolId => "unknown_symbol_id"

/-- Every code, in the order of the stages that raise them. -/
def all : List ErrorCode :=
  [.unrecognizedToken, .malformedNumber, .unclosedUnit, .unclosedGroup, .unknownCommand,
    .unrecognizedEof, .extraToken, .unmatchedBracket, .expectedNumber, .expectedIdent,
    .emptyArray, .emptyEquation, .badStatement, .badParameter, .undefinedVariable,
    .undefinedFunction, .notAFunction, .notAValue, .badArity, .unitRedefinition,
    .arrayLengthMismatch, .indexOutOfRange, .nonIntegerIndex, .cantIndexScalar,
    .divisionByZero, .notFinite, .callDepthExceeded, .dimensionMismatch, .conversionMismatch,
    .dimensionedExponent, .dimensionedArgument, .nonIntegerUnitExponent, .heterogeneousArray,
    .unknownUnit, .noConstInUnits, .noAppInUnits, .noIndexInUnits, .noUnaryOpInUnits,
    .badBinaryOpInUnits, .expectedInteger, .expectedIntegerOne, .duplicateUnit,
    .unitExponentOverflow, .unknownSymbolId]

def ofName? (name : String) : Option ErrorCode := all.find? fun code => code.name = name

end ErrorCode

/-- An error met while reading a text, before anything is evaluated. -/
structure SourceError where
  code : ErrorCode
  span : Span
deriving DecidableEq, Inhabited

def SourceError.message (e : SourceError) : String := e.span.text ++ ":" ++ e.code.name

structure Error where
  code : ErrorCode
  span : Span
  details : Option String := none
deriving DecidableEq, Inhabited

namespace Error

def ofSource (e : SourceError) : Error := { code := e.code, span := e.span }

def kind (e : Error) : ErrorKind := e.code.kind

/-- The text that is shown to the reader of the document. -/
def message (e : Error) : String :=
  match e.details with
  | some details => e.code.name ++ ": " ++ details
  | none => e.code.name

/-- The message inside the name of its kind. -/
def text (e : Error) : String := e.kind.name ++ "\x7b" ++ e.message ++ "\x7d"

/-- Moves the error into the text that its own text was cut out of, at byte `offset`. -/
def shift (e : Error) (offset : Nat) : Error := { e with span := e.span.shift offset }

end Error

end Worksheet
