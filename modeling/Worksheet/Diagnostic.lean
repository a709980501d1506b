import Worksheet.Error
/-!
# Diagnostics

What a processed statement reports. An error stops its statement; a warning does not.
-/

namespace Worksheet

inductive Severity where
  | error
  | warning
deriving DecidableEq, Inhabited

def Severity.name : Severity → String
  | .error => "error"
  | .warning => "warning"

structure Diagnostic where
  severity : Severity
  code : ErrorCode
  span : Span
  message : String
deriving DecidableEq, Inhabited

namespace Diagnostic

def ofError (e : Error) : Diagnostic := ⟨.error, e.code, e.span, e.message⟩

def warning (code : ErrorCode) (span : Span) (message : String) : Diagnostic :=
  ⟨.warning, code, span, message⟩

def kind (d : Diagnostic) : ErrorKind := d.code.kind

def isError (d : Diagnostic) : Bool := d.severity = .error

/-- Moves the diagnostic into the statement that its expression was cut out of, at byte `offset`. -/
def shift (d : Diagnostic) (offset : Nat) : Diagnostic := { d with span := d.span.shift offset }

def text (d : Diagnostic) : String :=
  d.span.text ++ ": " ++ d.severity.name ++ " " ++ d.message

end Diagnostic

end Worksheet
