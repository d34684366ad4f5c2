namespace ReadCache

open Nat (pow)

structure Block where
  id : Nat
  capacity : Nat
  bytes : ByteArray := ByteArray.empty

namespace Block

def clear (b : Block) : Block := { b with bytes := ByteArray.empty }

/-- The capacity a block must have to hold `length` bytes: its own if that is enough, otherwise at
least twice its own and at least eight. -/
def grownCapacity (capacity length : Nat) : Nat :=
  if length ≤ capacity then capacity else max (max (2 * capacity) length) 8

def capacityLimit : Nat := pow 2 63

def fits (b : Block) (length : Nat) : Bool :=
  length ≤ b.capacity || grownCapacity b.capacity length < capacityLimit

def fill (b : Block) (bytes : ByteArray) : Block :=
  { b with capacity := grownCapacity b.capacity bytes.size, bytes := bytes }

def append (b : Block) (count : Nat) (byte : UInt8) : Block :=
  let room := b.capacity - b.bytes.size
  { b with bytes := (List.replicate (min count room) byte).foldl ByteArray.push b.bytes }

end Block
end ReadCache
