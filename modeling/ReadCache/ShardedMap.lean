import ReadCache.Bindings
import ReadCache.Number.PowerOfTwo

namespace ReadCache

open Nat (pow)

/-- A map split into a power of two of shards. The shard of a key is given by the low bits of its
hash. -/
structure ShardedMap (K V : Type) where
  hash : K → UInt64
  shards : Array (Bindings K V)

namespace ShardedMap
variable {K V : Type}

def empty (hash : K → UInt64) (asked : Nat) : ShardedMap K V :=
  ⟨hash, Array.replicate (powerOfTwoFrom asked) []⟩

/-- The empty map, where its table can be had: a shard takes 128 bytes, and a table fewer than
`2 ^ 63`. -/
def create? (hash : K → UInt64) (asked : UInt64) : Option (ShardedMap K V) :=
  if powerOfTwoFrom asked.toNat * 128 < pow 2 63 then some (empty hash asked.toNat) else none

def shardCount (m : ShardedMap K V) : Nat := m.shards.size

def home (m : ShardedMap K V) (k : K) : Nat := (m.hash k).toNat &&& (m.shardCount - 1)

def shard (m : ShardedMap K V) (i : Nat) : Bindings K V := m.shards.getD i []

def setShard (m : ShardedMap K V) (i : Nat) (l : Bindings K V) : ShardedMap K V :=
  { m with shards := m.shards.setIfInBounds i l }

def toList (m : ShardedMap K V) : List (K × V) := m.shards.toList.flatten

def size (m : ShardedMap K V) : Nat := m.shards.foldl (· + ·.length) 0

def isEmpty (m : ShardedMap K V) : Bool := m.shards.all List.isEmpty

def clear (m : ShardedMap K V) : ShardedMap K V := { m with shards := m.shards.map fun _ => [] }

def allHome (m : ShardedMap K V) : Bool :=
  (List.range m.shardCount).all fun i => (m.shard i).all fun b => m.home b.1 = i

variable [DecidableEq K]

def get? (m : ShardedMap K V) (k : K) : Option V := (m.shard (m.home k)).get? k

def insert (m : ShardedMap K V) (k : K) (v : V) : ShardedMap K V :=
  m.setShard (m.home k) ((m.shard (m.home k)).insert k v)

def erase (m : ShardedMap K V) (k : K) : ShardedMap K V :=
  m.setShard (m.home k) ((m.shard (m.home k)).erase k)

end ShardedMap
end ReadCache
