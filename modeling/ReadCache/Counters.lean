import ReadCache.Number.Shortest

namespace ReadCache

inductive RemovalCause where
  /-- taken out to make room -/
  | size
  /-- invalidated -/
  | explicit
  /-- loaded after its slot was gone -/
  | replaced
  deriving DecidableEq, Repr

def RemovalCause.text : RemovalCause → String
  | size => "size"
  | explicit => "explicit"
  | replaced => "replaced"

structure Counters where
  hits : Nat := 0
  misses : Nat := 0
  loadSuccess : Nat := 0
  loadFailure : Nat := 0
  /-- The duration of all counted loads in nanoseconds, as a word that wraps around. -/
  loadNanos : UInt64 := 0
  evictionsSize : Nat := 0
  evictionsExplicit : Nat := 0
  evictionsReplaced : Nat := 0
  deriving DecidableEq, Repr

inductive Event where
  | hit
  | miss
  | loaded (nanos : Nat)
  | loadFailed (nanos : Nat)
  | removed (cause : RemovalCause)
  deriving DecidableEq, Repr

namespace Counters

def record (c : Counters) : Event → Counters
  | .hit => { c with hits := c.hits + 1 }
  | .miss => { c with misses := c.misses + 1 }
  | .loaded nanos =>
    { c with loadSuccess := c.loadSuccess + 1, loadNanos := c.loadNanos + .ofNat nanos }
  | .loadFailed nanos =>
    { c with loadFailure := c.loadFailure + 1, loadNanos := c.loadNanos + .ofNat nanos }
  | .removed .size => { c with evictionsSize := c.evictionsSize + 1 }
  | .removed .explicit => { c with evictionsExplicit := c.evictionsExplicit + 1 }
  | .removed .replaced => { c with evictionsReplaced := c.evictionsReplaced + 1 }

def loads (c : Counters) : Nat := c.loadSuccess + c.loadFailure

/-- Hits by requests: both counts are rounded to words before they are added and divided. -/
def hitRatio (c : Counters) : Binary64 :=
  let hits := Binary64.ofNat c.hits
  let total := hits.addMagnitudes (.ofNat c.misses)
  if total.isZero then .zero else hits.div total

def averageNanos (c : Counters) : Nat :=
  if c.loads = 0 then 0 else c.loadNanos.toNat / c.loads

end Counters

structure Report where
  hits : Nat
  misses : Nat
  hitRatio : Binary64
  loadSuccess : Nat
  loadFailure : Nat
  averageLoadMicros : Nat
  evictionsSize : Nat
  evictionsExplicit : Nat
  evictionsReplaced : Nat
  entries : Nat
  weightedSize : Nat
  capacity : Nat
  deriving DecidableEq, Repr

def Counters.report (c : Counters) (entries weightedSize capacity : Nat) : Report where
  hits := c.hits
  misses := c.misses
  hitRatio := c.hitRatio
  loadSuccess := c.loadSuccess
  loadFailure := c.loadFailure
  averageLoadMicros := c.averageNanos / 1000
  evictionsSize := c.evictionsSize
  evictionsExplicit := c.evictionsExplicit
  evictionsReplaced := c.evictionsReplaced
  entries := entries
  weightedSize := weightedSize
  capacity := capacity

namespace Report

def percentage (r : Report) : String := (r.hitRatio.mul (.ofNat 100)).textTwoPlaces

def lines (r : Report) : List String :=
  [ s!"entries:            {r.entries}",
    s!"weighted size:      {r.weightedSize} / {r.capacity} bytes",
    s!"hits / misses:      {r.hits} / {r.misses} ({r.percentage}% hit ratio)",
    s!"loads ok / failed:  {r.loadSuccess} / {r.loadFailure} (avg {r.averageLoadMicros} us)",
    s!"removals:           {r.evictionsSize} size, {r.evictionsExplicit} explicit, " ++
      s!"{r.evictionsReplaced} replaced" ]

def text (r : Report) : String := "\n".intercalate r.lines

end Report

end ReadCache
