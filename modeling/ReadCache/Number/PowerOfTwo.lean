namespace ReadCache

open Nat (pow)

def isPowerOfTwo (n : UInt64) : Bool := n ≠ 0 && n &&& (n - 1) = 0

/-- The least power of two not below `n`. -/
def powerOfTwoFrom (n : Nat) : Nat := if n ≤ 1 then 1 else pow 2 ((n - 1).log2 + 1)

def powerOfTwoFrom? (n : Nat) : Option Nat :=
  if powerOfTwoFrom n < UInt64.size then some (powerOfTwoFrom n) else none

end ReadCache
