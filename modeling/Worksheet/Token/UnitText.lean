/-!
# Unit texts

The body of a unit wrapper such as `\mathrm`, turned into the plain spelling that units are read
from: `\mu g` becomes `µg`, `\%` becomes `%`, and the spaces of mathematics become blanks, which
multiply.
-/

namespace Worksheet.UnitText

/-- Commands whose argument is a product of units. -/
def wrappers : List String := ["mathrm", "text", "textrm", "unit", "si"]

/-- The length of a degree sign written as a superscript, if a text begins with one. -/
def degreeLength? (cs : List Char) : Option Nat :=
  let braced := "^\x7b\\circ\x7d".toList
  let bare := "^\\circ".toList
  if braced.isPrefixOf cs then some braced.length
  else if bare.isPrefixOf cs then some bare.length
  else none

/-- What a command stands for. A wrapper inside goes away, since its braces group; a command that
is not known stays. -/
def commandText (name : String) : List Char :=
  if name = "mu" then ['µ']
  else if name = "Omega" then ['Ω']
  else if name = "circ" then ['°']
  else if name = "percent" then ['%']
  else if name = "cdot" || name = "times" then ['*']
  else if wrappers.contains name then []
  else '\\' :: name.toList ++ [' ']

def signText (c : Char) : List Char :=
  if c = '%' then ['%']
  else if c = ',' || c = ';' || c = ':' || c = '!' || c = ' ' then [' ']
  else ['\\', c]

def spaces (cs : List Char) : Nat := (cs.takeWhile (· = ' ')).length

/-- The first argument counts characters that are dealt with already. -/
def plainFrom : Nat → List Char → List Char
  | _, [] => []
  | n + 1, _ :: cs => plainFrom n cs
  | 0, c :: cs =>
    match degreeLength? (c :: cs) with
    | some size => '°' :: plainFrom (size - 1 + spaces ((c :: cs).drop size)) cs
    | none =>
      if c = '~' then ' ' :: plainFrom 0 cs
      else if c = '\\' then
        match cs with
        | [] => ['\\']
        | d :: ds =>
          if d.isAlpha then
            let name := (d :: ds).takeWhile Char.isAlpha
            commandText (String.ofList name) ++
              plainFrom (name.length + spaces ((d :: ds).drop name.length)) (d :: ds)
          else signText d ++ plainFrom 0 ds
      else c :: plainFrom 0 cs

def plain (cs : List Char) : List Char := plainFrom 0 cs

end Worksheet.UnitText
