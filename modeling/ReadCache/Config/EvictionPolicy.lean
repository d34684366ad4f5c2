import ReadCache.Number.Shortest
import ReadCache.Error

namespace ReadCache

structure EvictionPolicy where
  name : String
  /-- The part of the capacity that an eviction leaves filled at most. -/
  lowWatermark : Binary64
  /-- How many candidates are picked at a time. -/
  batchSize : UInt64
  deriving DecidableEq, Repr

namespace EvictionPolicy

def lru : EvictionPolicy := ⟨"LRU", ⟨0x3fee666666666666⟩, 256⟩

def strict : EvictionPolicy := ⟨"LRU-strict", .one, 256⟩

/-- The weight an eviction empties the cache to: the capacity as a binary64 word times the
watermark, rounded toward zero into 64 bits. -/
def targetWeight (p : EvictionPolicy) (capacity : UInt64) : UInt64 :=
  ((Binary64.ofNat capacity.toNat).mul p.lowWatermark).toWord

end EvictionPolicy

inductive ConfigFault where
  | shardCount (count : UInt64)
  | noReferenceAttempts
  | sizeTooLarge (megabytes : UInt64)
  | lowWatermark (value : Binary64)
  | noBatch
  deriving DecidableEq, Repr

def ConfigFault.reason : ConfigFault → String
  | shardCount count => s!"shard_count must be a power of two, got {count}"
  | noReferenceAttempts => "max_reference_attempts must be at least 1"
  | sizeTooLarge megabytes => s!"file_cache_size_mb {megabytes} does not fit in a byte count"
  | lowWatermark value => "eviction low watermark must be in (0, 1], got " ++ value.text
  | noBatch => "eviction batch size must be positive"

def ConfigFault.toError (fault : ConfigFault) : Error := .config fault.reason

def EvictionPolicy.validate (p : EvictionPolicy) : Except ConfigFault Unit :=
  if !p.lowWatermark.inUnitInterval then .error (.lowWatermark p.lowWatermark)
  else if p.batchSize = 0 then .error .noBatch
  else .ok ()

end ReadCache
