import ReadCache.Access

namespace ReadCache

structure Cache where
  config : Config
  enabled : Bool
  /-- In the order in which they were added: each wraps those before it. -/
  interceptors : List String := []

namespace Cache

def build (config : Config) (interceptors : List String) : Except Error Cache :=
  match config.validate with
  | .error fault => .error fault.toError
  | .ok () => .ok { config, enabled := config.enabled, interceptors }

def settings (c : Cache) : Store.Settings where
  capacity := c.config.capacity
  shardCount := c.config.shardCount
  roundUp := c.config.roundUp
  eviction := c.config.eviction

def capacity (c : Cache) : UInt64 := c.config.capacity

def isEnabled (c : Cache) : Bool := c.enabled && 0 < c.capacity

def setCapacity (_ : Cache) (_ : UInt64) : Except Error Unit := .error .capacityImmutable

/-- Access through the table if the cache is enabled, and past it if not. -/
def wrap (c : Cache) (r : Reader) : Except Error Access := do
  if c.isEnabled then
    let access ← Access.cached? r c.config.maxReferenceAttempts
    return { access with watchers := c.interceptors.reverse }
  else Access.direct? r

def describe (c : Cache) (weightedSize : Nat) : String :=
  Text.record "ChunkCache"
    [("enabled", toString c.isEnabled), ("capacity", toString c.capacity),
      ("weighted_size", toString weightedSize), ("interceptors", toString c.interceptors.length)]

end Cache

/-- Turned on or off, a cache starts anew: nothing resident and nothing counted. -/
def Engine.restart (e : Engine) : Engine := e.invalidateAll.2.resetCounters

end ReadCache
