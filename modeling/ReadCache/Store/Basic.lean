import ReadCache.ChunkId
import ReadCache.Config.EvictionPolicy
import ReadCache.Counters
import ReadCache.Memory
import ReadCache.ShardedMap

namespace ReadCache

structure Resident where
  chunk : ChunkRef
  weight : Nat
  /-- The clock when the chunk was last asked for. -/
  lastAccess : Nat
  deriving DecidableEq, Repr

/-- Loads are numbered in the order in which they begin. -/
abbrev Ticket := Nat

inductive Slot where
  | resident (r : Resident)
  | loading (ticket : Ticket)
  deriving DecidableEq, Repr

def Slot.resident? : Slot → Option Resident
  | resident r => some r
  | loading _ => none

/-- What one who asks for a chunk is told. -/
inductive Lookup where
  | hit (chunk : ChunkRef)
  | wait (ticket : Ticket)
  | load (ticket : Ticket)
  deriving DecidableEq, Repr

/-- In which order chunks that were last used at the same time come up for eviction. The iteration
of a hash table and an unstable sort leave it open, and may settle it anew in each round of a pass:
no two rounds of a run see the same chunks at the same clock. -/
structure Store.Ties where
  arrange : (clock : Nat) → List (ChunkId × Resident) → List (ChunkId × Resident)
  perm : ∀ clock seen, (arrange clock seen).Perm seen

def Store.Ties.asListed : Ties := ⟨fun _ seen => seen, fun _ _ => .refl _⟩

structure Store.Settings where
  capacity : UInt64
  shardCount : UInt64 := 64
  /-- Memory for a chunk is asked for in powers of two. -/
  roundUp : Bool := false
  eviction : EvictionPolicy := .lru
  ties : Store.Ties := .asListed

/-- The table of a cache. Each function on it is one step that no other caller can interrupt; the
calls made of these steps are those of `Engine`. -/
structure Store where
  settings : Store.Settings
  slots : ShardedMap ChunkId Slot
  /-- The capacities of the resident chunks together. -/
  weightedSize : Nat := 0
  /-- Chunks ever made resident. -/
  clock : Nat := 0
  counters : Counters := {}
  /-- What each load came to, as far as it is known. -/
  results : Array (Option (Except Error ChunkRef)) := #[]

namespace Store

def create? (settings : Settings) (hash : ChunkId → UInt64) : Option Store :=
  (ShardedMap.create? hash settings.shardCount).map fun slots => { settings, slots }

def capacity (s : Store) : UInt64 := s.settings.capacity

def targetWeight (s : Store) : Nat := (s.settings.eviction.targetWeight s.capacity).toNat

def residentsOf (slots : List (ChunkId × Slot)) : List (ChunkId × Resident) :=
  slots.filterMap fun (k, slot) => slot.resident?.map (k, ·)

def residents (s : Store) : List (ChunkId × Resident) := residentsOf s.slots.toList

def residentsIn (s : Store) (shard : Nat) : List (ChunkId × Resident) :=
  residentsOf (s.slots.shard shard)

def size (s : Store) : Nat := s.residents.length

def record (s : Store) (event : Event) : Store :=
  { s with counters := s.counters.record event }

/-- A hit moves the stamp up to the clock, and never the clock. -/
def touch (s : Store) (k : ChunkId) (r : Resident) : Store :=
  if r.lastAccess < s.clock then
    { s with slots := s.slots.insert k (.resident { r with lastAccess := s.clock }) }
  else s

def find? (s : Store) (k : ChunkId) : Option Lookup × Store :=
  match s.slots.get? k with
  | some (.resident r) => (some (.hit r.chunk), s.touch k r)
  | some (.loading ticket) => (some (.wait ticket), s)
  | none => (none, s)

def claim (s : Store) (k : ChunkId) : Lookup × Store :=
  match s.find? k with
  | (some found, s) => (found, s)
  | (none, s) =>
    let ticket := s.results.size
    (.load ticket,
      { s with slots := s.slots.insert k (.loading ticket), results := s.results.push none })

def owns (s : Store) (k : ChunkId) (ticket : Ticket) : Bool :=
  s.slots.get? k = some (.loading ticket)

/-- Makes a loaded chunk resident if the slot still waits for this load. -/
def settle (s : Store) (k : ChunkId) (ticket : Ticket) (chunk : ChunkRef) (weight : Nat) :
    Bool × Store :=
  if s.owns k ticket then
    (true, { s with
      slots := s.slots.insert k (.resident ⟨chunk, weight, s.clock⟩)
      clock := s.clock + 1
      weightedSize := s.weightedSize + weight })
  else (false, s)

def clearLoad (s : Store) (k : ChunkId) (ticket : Ticket) : Store :=
  if s.owns k ticket then { s with slots := s.slots.erase k } else s

/-- Hands the result of a load to all who wait for it. -/
def publish (s : Store) (ticket : Ticket) (result : Except Error ChunkRef) : Store :=
  { s with results := s.results.setIfInBounds ticket (some result) }

def result? (s : Store) (ticket : Ticket) : Option (Except Error ChunkRef) :=
  s.results[ticket]?.join

def detach (s : Store) (k : ChunkId) : Option Slot × Store :=
  (s.slots.get? k, { s with slots := s.slots.erase k })

def detachIf (s : Store) (k : ChunkId) (chunk : ChunkRef) : Option Resident × Store :=
  match s.slots.get? k with
  | some (.resident r) =>
    if r.chunk = chunk then (some r, { s with slots := s.slots.erase k }) else (none, s)
  | _ => (none, s)

def discount (s : Store) (r : Resident) : Store :=
  { s with weightedSize := s.weightedSize - r.weight }

/-- Takes out a chunk with its weight. Nothing comes out of a slot that is being loaded, but the
load has lost it. -/
def remove (s : Store) (k : ChunkId) : Option Resident × Store :=
  match s.detach k with
  | (some (.resident r), s) => (some r, s.discount r)
  | (_, s) => (none, s)

def detachMatching (s : Store) (i : Nat) (matches? : ChunkId → Bool) : List Resident × Store :=
  ((residentsOf ((s.slots.shard i).filter fun b => matches? b.1)).map Prod.snd,
    { s with slots := s.slots.setShard i ((s.slots.shard i).filter fun b => !matches? b.1) })

def discountAll (s : Store) (out : List Resident) : Store := out.foldl discount s

def sweepShard (s : Store) (i : Nat) (matches? : ChunkId → Bool) : List Resident × Store :=
  let (out, s) := s.detachMatching i matches?
  (out, s.discountAll out)

def sweep (s : Store) (matches? : ChunkId → Bool) : List Resident × Store :=
  (List.range s.slots.shardCount).foldl
    (fun (out, s) i =>
      let (more, s) := s.sweepShard i matches?
      (out ++ more, s))
    ([], s)

def batchSize (s : Store) : Nat := s.settings.eviction.batchSize.toNat

def byAge (s : Store) (seen : List (ChunkId × Resident)) : List (ChunkId × Resident) :=
  (s.settings.ties.arrange s.clock seen).mergeSort fun a b => a.2.lastAccess ≤ b.2.lastAccess

/-- The least recently used of some chunks, as many as a batch holds. -/
def leastRecent (s : Store) (seen : List (ChunkId × Resident)) : List (ChunkId × Resident) :=
  (s.byAge seen).take s.batchSize

def candidates (s : Store) : List (ChunkId × Resident) := s.leastRecent s.residents

def report (s : Store) : Report :=
  s.counters.report s.size s.weightedSize s.capacity.toNat

end Store
end ReadCache
