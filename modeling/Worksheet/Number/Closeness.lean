import Worksheet.Number.Binary
/-!
# Closeness

When two floats count as the same number although they were computed in different ways.
-/

namespace Worksheet.Number

/-- The place of a float among all floats in increasing order. -/
def rank (x : Float) : Int :=
  let bits : Int := x.toBits.toNat
  if bits < signBit then bits + signBit else 2 * signBit - 1 - bits

/-- Equal, or at most four floats apart. -/
def isClose (x y : Float) : Bool := x == y || (rank x - rank y).natAbs ≤ 4

/-- The distance from one to the next float. -/
def unitGap : Float := 2.220446049250313e-16

/-- Close, or closer together than the floats around one. -/
def isNear (x y : Float) : Bool := (x - y).abs ≤ unitGap || isClose x y

end Worksheet.Number
