import ReadCache.Config.EvictionPolicy
import ReadCache.Number.PowerOfTwo

namespace ReadCache

open Nat (pow)

structure Config where
  fileCacheSizeMb : UInt64 := 512
  reservedPoolSpaceMb : UInt64 := 32
  /-- Set, it replaces the capacity that follows from the two sizes. -/
  capacityBytes : Option UInt64 := none
  enabled : Bool := true
  roundUp : Bool := false
  maxReferenceAttempts : UInt32 := 1000
  shardCount : UInt64 := 64
  eviction : EvictionPolicy := .lru
  deriving DecidableEq, Repr

namespace Config

def withCapacityBytes (capacity : UInt64) : Config := { capacityBytes := some capacity }

def capacity? (c : Config) : Option UInt64 :=
  match c.capacityBytes with
  | some bytes => some bytes
  | none =>
    let bytes := (c.fileCacheSizeMb.toNat - c.reservedPoolSpaceMb.toNat) * pow 2 20
    if bytes < UInt64.size then some (.ofNat bytes) else none

/-- The capacity in bytes, or the largest word if it is larger still. -/
def capacity (c : Config) : UInt64 := c.capacity?.getD (.ofNat (UInt64.size - 1))

def isEnabled (c : Config) : Bool := c.enabled && 0 < c.capacity

def validate (c : Config) : Except ConfigFault Unit :=
  if !isPowerOfTwo c.shardCount then .error (.shardCount c.shardCount)
  else if c.maxReferenceAttempts = 0 then .error .noReferenceAttempts
  else if c.capacity? = none then .error (.sizeTooLarge c.fileCacheSizeMb)
  else c.eviction.validate

end Config
end ReadCache
