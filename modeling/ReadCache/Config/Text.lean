import ReadCache.Config.Basic
import ReadCache.Json.Record

namespace ReadCache

open Json in
def EvictionPolicy.fields : List (Json.Field EvictionPolicy) :=
  [ .of "name" stringValue fun v p => { p with name := v },
    .of "low_watermark" realValue fun v p => { p with lowWatermark := v },
    .of "batch_size" wordValue fun v p => { p with batchSize := v } ]

def EvictionPolicy.reading : Json.Reading EvictionPolicy := Json.record fields lru

def EvictionPolicy.ofText (text : String) : Except Json.Fault EvictionPolicy :=
  Json.wholeText reading text

open Json in
def Config.fields : List (Json.Field Config) :=
  [ .of "file_cache_size_mb" wordValue fun v c => { c with fileCacheSizeMb := v },
    .of "reserved_pool_space_mb" wordValue fun v c => { c with reservedPoolSpaceMb := v },
    .of "capacity_bytes" (optionalValue wordValue) fun v c => { c with capacityBytes := v },
    .of "enabled" boolValue fun v c => { c with enabled := v },
    .of "round_up" boolValue fun v c => { c with roundUp := v },
    .of "max_reference_attempts" halfWordValue fun v c => { c with maxReferenceAttempts := v },
    .of "shard_count" wordValue fun v c => { c with shardCount := v },
    .of "eviction" EvictionPolicy.reading fun v c => { c with eviction := v } ]

def Config.ofText (text : String) : Except Json.Fault Config :=
  Json.wholeText (Json.record fields {}) text

end ReadCache
