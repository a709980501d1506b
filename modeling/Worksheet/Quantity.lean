import Worksheet.UnitProduct
/-!
# Quantities

Magnitudes with their units, and arithmetic that carries the units along.
-/

namespace Worksheet

/-- A magnitude in the units it is written in. What the units amount to in base units is kept beside
them: the value is `(magnitude + offset) * scale` in units of the dimension. -/
structure Quantity where
  magnitude : Float
  units : UnitProduct
  dimension : UnitProduct
  scale : Float
  offset : Float
deriving DecidableEq, Inhabited

namespace Quantity

def number (magnitude : Float) : Quantity := ⟨magnitude, .one, .one, 1, 0⟩

/-- Has no units. A percentage has no dimension, but it has a unit. -/
def isNumber (q : Quantity) : Bool := q.units.isOne

def isDimensionless (q : Quantity) : Bool := q.dimension.isOne

def sameDimension (q r : Quantity) : Bool := q.dimension = r.dimension

/-- Equality of the numbers and the units; what is no number equals nothing. -/
def equals (q r : Quantity) : Bool :=
  q.magnitude == r.magnitude && q.units = r.units && q.dimension = r.dimension &&
    q.scale == r.scale && q.offset == r.offset

def toSi (q : Quantity) : Float := (q.magnitude + q.offset) * q.scale

def toBase (q : Quantity) : Quantity := ⟨q.toSi, q.dimension, q.dimension, 1, 0⟩

def withMagnitude (q : Quantity) (magnitude : Float) : Quantity := { q with magnitude }

/-- The quantity written in the units of another one, if these have the same dimension. -/
def convertTo? (q target : Quantity) : Option Quantity :=
  if q.sameDimension target then
    some (target.withMagnitude (q.toSi / target.scale - target.offset))
  else none

/-- The quantity in units that begin at zero. -/
def withoutOffset (q : Quantity) : Quantity := if q.offset == 0 then q else q.toBase

/-- How much another quantity adds to the magnitude. What is added to a temperature in degrees is a
difference. -/
def addend (q r : Quantity) : Float :=
  if q.offset != 0 then r.magnitude * r.scale / q.scale else r.toSi / q.scale

def add? (q r : Quantity) : Option Quantity :=
  if q.sameDimension r then some (q.withMagnitude (q.magnitude + q.addend r)) else none

def sub? (q r : Quantity) : Option Quantity :=
  if q.sameDimension r then some (q.withMagnitude (q.magnitude - q.addend r)) else none

def neg (q : Quantity) : Quantity := q.withMagnitude (-q.magnitude)

/-- The product, unless an exponent leaves its range. A bare number keeps the units of the other
side as they are, offset included. -/
def mul? (q r : Quantity) : Option Quantity :=
  if q.isNumber then some (r.withMagnitude (q.magnitude * r.magnitude))
  else if r.isNumber then some (q.withMagnitude (q.magnitude * r.magnitude))
  else do
    let q := q.withoutOffset
    let r := r.withoutOffset
    let units ← q.units.mul? r.units
    let dimension ← q.dimension.mul? r.dimension
    some ⟨q.magnitude * r.magnitude, units, dimension, q.scale * r.scale, 0⟩

def div? (q r : Quantity) : Option Quantity :=
  if r.isNumber then some (q.withMagnitude (q.magnitude / r.magnitude))
  else do
    let q := q.withoutOffset
    let r := r.withoutOffset
    let units ← q.units.div? r.units
    let dimension ← q.dimension.div? r.dimension
    some ⟨q.magnitude / r.magnitude, units, dimension, q.scale / r.scale, 0⟩

def pow? (q : Quantity) (power : Float) : Option Quantity := do
  let q := q.withoutOffset
  let units ← q.units.scale? power
  let dimension ← q.dimension.scale? power
  some ⟨q.magnitude.pow power, units, dimension, q.scale.pow power, 0⟩

def describe (q : Quantity) : String := if q.isNumber then "a number" else q.units.text

end Quantity

end Worksheet
