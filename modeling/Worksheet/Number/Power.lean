/-!
# Integer powers

Powers of a float by repeated squaring. Every product is rounded, so their order is part of the
result.
-/

namespace Worksheet.Number

/-- Multiplies `product` by the power, from the lowest bit of the exponent up. -/
def powerFrom (product base : Float) (exponent : Nat) : Float :=
  let product := if exponent % 2 = 1 then product * base else product
  if exponent < 2 then product else powerFrom product (base * base) (exponent / 2)
termination_by exponent

/-- The power with an integer exponent; a negative one takes the reciprocal last. -/
def power (base : Float) (exponent : Int) : Float :=
  let size := powerFrom 1 base exponent.natAbs
  if exponent < 0 then 1 / size else size

end Worksheet.Number
