import ReadCache.Store.Basic

namespace ReadCache

/-- The table together with the memory of its chunks. A chunk holds one reference for the table from
its load until it leaves the table, or until its load turns out to have lost its slot. -/
structure Engine where
  store : Store
  memory : Memory

namespace Engine

def onStore (e : Engine) (f : Store → Store) : Engine := { e with store := f e.store }

def onMemory (e : Engine) (f : Memory → Memory) : Engine := { e with memory := f e.memory }

/-- The way of every chunk out of the table: it is counted and the table's reference given up. -/
def retire (e : Engine) (chunk : ChunkRef) (cause : RemovalCause) : Engine :=
  { store := e.store.record (.removed cause), memory := e.memory.unreference chunk }

def retireAll (e : Engine) (out : List Resident) (cause : RemovalCause) : Engine :=
  out.foldl (fun e r => e.retire r.chunk cause) e

def request (e : Engine) (k : ChunkId) : Lookup × Engine :=
  match e.store.find? k with
  | (some found, store) => (found, { e with store := store.record .hit })
  | (none, store) =>
    match store.claim k with
    | (.load ticket, store) => (.load ticket, { e with store := store.record .miss })
    | (found, store) => (found, { e with store := store.record .hit })

def evict (e : Engine) (k : ChunkId) (chunk : ChunkRef) : Bool × Engine :=
  match e.store.detachIf k chunk with
  | (some r, store) => (true, ({ e with store := store.discount r }).retire r.chunk .size)
  | (none, store) => (false, { e with store })

def evictBatch (e : Engine) (target : Nat) : List (ChunkId × Resident) → Nat × Engine
  | [] => (0, e)
  | (k, r) :: rest =>
    if e.store.weightedSize ≤ target then (0, e)
    else
      let (evicted, e) := e.evict k r.chunk
      let (n, e) := e.evictBatch target rest
      (if evicted then n + 1 else n, e)

/-- Evicts batch after batch until the weight is down or a batch was of no use. Every useful batch
takes out a chunk, so no more batches are needed than chunks are resident. -/
def evictDown (target : Nat) : (rounds : Nat) → Engine → Engine
  | 0, e => e
  | rounds + 1, e =>
    if e.store.weightedSize ≤ target then e
    else match e.evictBatch target e.store.candidates with
      | (0, e) => e
      | (_, e) => evictDown target rounds e

def evictIfNeeded (e : Engine) : Engine :=
  if e.store.weightedSize ≤ e.store.capacity.toNat then e
  else evictDown e.store.targetWeight e.store.size e

def arrive (e : Engine) (k : ChunkId) (b : Block) : ChunkRef × Engine :=
  let (chunk, memory) := e.memory.adopt b k.position
  (chunk, { store := e.store.record (.loaded 0), memory })

/-- A load succeeds: the chunk becomes resident if the load still owns its slot. If not, those who
wait get the chunk all the same, but the reference that would have kept it is given up. -/
def land (e : Engine) (k : ChunkId) (ticket : Ticket) (b : Block) : ChunkRef × Engine :=
  let (chunk, e) := e.arrive k b
  let (settled, store) := e.store.settle k ticket chunk b.capacity
  let e := { e with store := store.publish ticket (.ok chunk) }
  (chunk, if settled then e.evictIfNeeded else e.retire chunk .replaced)

def failLoad (e : Engine) (k : ChunkId) (ticket : Ticket) (error : Error) : Engine :=
  e.onStore fun s => ((s.record (.loadFailed 0)).clearLoad k ticket).publish ticket (.error error)

def abandonLoad (e : Engine) (k : ChunkId) (ticket : Ticket) : Engine :=
  e.onStore fun s => (s.clearLoad k ticket).publish ticket (.error (.loadAbandoned k.text))

/-- Finishes a load by how its loader ended. -/
def finish (e : Engine) (k : ChunkId) (ticket : Ticket) :
    Except Failure Block → Except Failure ChunkRef × Engine
  | .ok b =>
    let (chunk, e) := e.land k ticket b
    (.ok chunk, e)
  | .error (.error error) => (.error (.error error), e.failLoad k ticket error)
  | .error .panic => (.error .panic, e.abandonLoad k ticket)
  | .error .stuck => (.error .stuck, e)

def receive (e : Engine) (ticket : Ticket) : Except Failure ChunkRef :=
  match e.store.result? ticket with
  | some (.ok chunk) => .ok chunk
  | some (.error error) => .error (.error error)
  | none => .error .stuck

/-- Removes a chunk; a load of it that is under way will not become resident. -/
def invalidate (e : Engine) (k : ChunkId) : Bool × Engine :=
  match e.store.remove k with
  | (some r, store) => (true, ({ e with store }).retire r.chunk .explicit)
  | (none, store) => (false, { e with store })

def invalidateMatching (e : Engine) (matches? : ChunkId → Bool) : Nat × Engine :=
  let (out, store) := e.store.sweep matches?
  (out.length, ({ e with store }).retireAll out .explicit)

def invalidateAll (e : Engine) : Nat × Engine := e.invalidateMatching fun _ => true

def invalidateFile (e : Engine) (path : String) : Nat × Engine :=
  e.invalidateMatching fun k => k.path = path

def resetCounters (e : Engine) : Engine := e.onStore fun s => { s with counters := {} }

variable {σ : Type}

/-- Gives a chunk, loading it if it is neither there nor on its way. The loader may act on all of
the state; `σ` is whatever there is besides the engine. -/
def getOrLoadWith (k : ChunkId) (loader : Action (Engine × σ) Block) :
    Action (Engine × σ) ChunkRef := fun (e, s) =>
  match e.request k with
  | (.hit chunk, e) => (.ok chunk, (e, s))
  | (.wait ticket, e) => (e.receive ticket, (e, s))
  | (.load ticket, e) =>
    let (loaded, e, s) := loader (e, s)
    let (result, e) := e.finish k ticket loaded
    (result, (e, s))

end Engine
end ReadCache
