/-!
# Radix powers

The powers that binary and decimal numbers are scaled by.
-/

namespace Worksheet.Number

def twoPow (n : Nat) : Nat := Nat.pow 2 n

def tenPow (n : Nat) : Nat := Nat.pow 10 n

theorem twoPow_pos (n : Nat) : 0 < twoPow n := Nat.pow_pos (Nat.succ_pos 1)

end Worksheet.Number
