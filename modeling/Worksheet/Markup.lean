import Worksheet.Diagnostic
import Worksheet.Text.Group
import Worksheet.Text.Search
/-!
# Markup

A diagnostic in colour after a statement. A unit that was asked for and could not be given is kept
in it, so that the next run asks for it again.
-/

namespace Worksheet.Markup

def start : List Char := "\\quad \\color\x7b".toList

def requested : List Char := "\\ \\text\x7brequested\x7d\\ \\mathrm".toList

def escape (c : Char) : List Char :=
  if c = '\\' then "\\textbackslash\x7b\x7d".toList
  else if c = '^' then "\\^\x7b\x7d".toList
  else if c = '~' then "\\~\x7b\x7d".toList
  else if c = '_' || c = '%' || c = '&' || c = '#' || c = '$' || c = '\x7b' || c = '\x7d' then
    ['\\', c]
  else [c]

def escapeText (message : String) : String := String.ofList (message.toList.flatMap escape)

def colour : Severity → String
  | .error => "red"
  | .warning => "orange"

def braced (body : String) : String := "\x7b" ++ body ++ "\x7d"

/-- The unit that was asked for, as a markup keeps it. -/
def request : Option String → String
  | some hint => String.ofList requested ++ braced hint
  | none => ""

/-- The markup of a message, and of the unit that was asked for, if any. -/
def render (severity : Severity) (message : String) (hint : Option String) : String :=
  String.ofList start ++ colour severity ++ "\x7d" ++
    braced ("\\text" ++ braced (escapeText message) ++ request hint)

/-- What stands before the markup in a text, and the markup from there on. -/
def split (cs : List Char) : List Char × Option (List Char) :=
  match Text.splitAt? start cs with
  | some (before, after) => (before, some (start ++ after))
  | none => (cs, none)

def hint? (markup : List Char) : Option (List Char) := do
  let (_, after) ← Text.splitAt? requested markup
  let (hint, _) ← Text.group? after
  some hint

end Worksheet.Markup
