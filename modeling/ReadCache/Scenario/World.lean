import ReadCache.Scenario.Script

namespace ReadCache.Scenario

structure Probe where
  reader : Reader
  hooks : List Hook
  /-- Physical reads by position. -/
  reads : Bindings UInt64 Nat := []

/-- Holds the next read of a reader: others ask for a chunk meanwhile, the marked one is
invalidated, and then the read goes on, or fails. -/
structure Gate where
  reader : Nat
  wanted : ChunkId
  waiters : Nat
  marked : Option ChunkId
  ending : Ending

/-- What those found who asked while a read was held, and whether something was invalidated. -/
structure Passage where
  lookups : List Lookup := []
  removed : Option Bool := none

structure Bench where
  cache : Option Cache
  /-- Does the script still hold the store or cache? -/
  holding : Bool := true
  probes : Array Probe
  accesses : Bindings String (Nat × Access) := []
  handles : Bindings String ChunkRef := []
  kept : Bindings String ChunkRef := []
  gate : Option Gate := none
  /-- What came of the last gate that a read passed. -/
  passage : Option Passage := none

abbrev World := Engine × Bench

/-- What a bench is built around. -/
inductive Front where
  | store (settings : Store.Settings)
  | cache (config : Config) (interceptors : List String)

structure Setup where
  maxRetainedBytes : UInt64 := 67108864
  limit : Option UInt64 := none
  front : Front
  readers : List (ReaderSetup × List Hook)

namespace World

def build (s : Setup) : Except Failure World := do
  let (settings, cache) ← match s.front with
    | .store settings => pure (settings, none)
    | .cache config interceptors =>
      match Cache.build config interceptors with
      | .error e => throw (.error e)
      | .ok cache => pure (cache.settings, some cache)
  let some store := Store.create? settings ChunkId.hash | throw .panic
  let probes ← s.readers.mapM fun (setup, hooks) =>
    match setup.build? with
    | .error e => throw (Failure.error e)
    | .ok reader => pure ({ reader, hooks } : Probe)
  let pool : Pool := { free := { maxRetainedBytes := s.maxRetainedBytes }, limit := s.limit }
  return ({ store, memory := { pool } }, { cache, probes := probes.toArray })

def onEngine (w : World) (f : Engine → Engine) : World := (f w.1, w.2)

def onBench (w : World) (f : Bench → Bench) : World := (w.1, f w.2)

def onMemory (w : World) (f : Memory → Memory) : World := w.onEngine (·.onMemory f)

def poolCounts (w : World) : List Nat :=
  let p := w.1.memory.pool
  [p.acquired, p.released, p.outstanding, p.free.retainedBytes]

def storeCounts (w : World) : List Nat :=
  let s := w.1.store
  let c := s.counters
  [s.size, s.weightedSize, c.hits, c.misses, c.loadSuccess, c.loadFailure, c.evictionsSize,
    c.evictionsExplicit, c.evictionsReplaced]

def snapshot (w : World) : Snapshot where
  counts := if w.2.holding then some w.storeCounts else none
  pool := w.poolCounts

def probe? (w : World) (reader : Nat) : Option Probe := w.2.probes[reader]?

def access? (w : World) (name : String) : Option (Nat × Access) := w.2.accesses.get? name

def handle? (w : World) (name : String) : Option ChunkRef := w.2.handles.get? name

def kept? (w : World) (name : String) : Option ChunkRef := w.2.kept.get? name

def cache? (w : World) : Option Cache := if w.2.holding then w.2.cache else none

def holdsStore (w : World) : Bool := w.2.holding && w.2.cache.isNone

def chunkView (w : World) (c : ChunkRef) : ChunkView :=
  match w.1.memory.chunk? c with
  | some chunk => ⟨chunk.offset, chunk.capacity, chunk.references.toNat⟩
  | none => ⟨0, 0, 0⟩

def handleView? (w : World) (c : ChunkRef) : Except Failure HandleView :=
  match w.1.memory.view? c with
  | some bytes => .ok ⟨w.chunkView c, bytes⟩
  | none => .error .panic

def modifyProbe (w : World) (reader : Nat) (f : Probe → Probe) : World :=
  w.onBench fun b => { b with probes := b.probes.modify reader f }

def setGate (w : World) (gate : Option Gate) : World :=
  w.onBench fun b => { b with gate, passage := none }

def closeReader (w : World) (reader : Nat) : World :=
  w.modifyProbe reader fun p => { p with reader := p.reader.close }

/-- A store that nobody holds any more is emptied. -/
def dropUnheldStore (w : World) : World :=
  if w.2.holding || w.2.accesses.any (·.2.2.isCached) then w
  else w.onEngine fun e => e.invalidateAll.2

def bindAccess (w : World) (name : String) (reader : Nat) (access : Access) : World :=
  (w.onBench fun b => { b with accesses := b.accesses.insert name (reader, access) })
    |>.dropUnheldStore

def release (w : World) (c : ChunkRef) : World := w.onMemory (·.unreference c)

/-- Names a handle; one that had the name is given up. -/
def bindHandle (w : World) (name : String) (c : ChunkRef) : World :=
  let old := w.handle? name
  let w := w.onBench fun b => { b with handles := b.handles.insert name c }
  match old with
  | some c => w.release c
  | none => w

def keep (w : World) (name : String) (c : ChunkRef) : World :=
  w.onBench fun b => { b with kept := b.kept.insert name c }

def handlesOn (w : World) (c : ChunkRef) : List String :=
  ((w.2.handles.filter (·.2 = c)).map (·.1)).mergeSort (· ≤ ·)

def dropHandles (w : World) : World :=
  let names := (w.2.handles.map (·.1)).mergeSort (· ≤ ·)
  names.foldl
    (fun w name => match w.handle? name with
      | some c => (w.onBench fun b => { b with handles := b.handles.erase name }).release c
      | none => w)
    w

/-- The script lets go of everything: first of the accesses and the store, then of the handles,
last of the kept chunks. After each the pool is looked at. -/
def closing (w : World) : List (List Nat) :=
  let w := (w.onBench fun b => { b with accesses := [], holding := false }).dropUnheldStore
  let handlesGone := w.dropHandles
  let allGone := handlesGone.onBench fun b => { b with kept := [] }
  [w.poolCounts, handlesGone.poolCounts, allGone.poolCounts]

end World
end ReadCache.Scenario
