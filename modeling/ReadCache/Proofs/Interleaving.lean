import ReadCache.Access
import ReadCache.Proofs.References

namespace ReadCache

structure Handle where
  chunk : ChunkRef
  /-- What was asked for, where the handle came from a read. -/
  asked : Option ChunkId := none
  deriving DecidableEq, Repr

/-- What the calls share. -/
structure Shared where
  engine : Engine
  readers : List Reader := []
  handles : List Handle := []
  /-- An eviction pass is running. -/
  evicting : Bool := false
  /-- The passes that ended with a batch of no use though other chunks were left. -/
  gaveUp : Nat := 0
  /-- What went back to the pool, last first: the memory of a chunk, or of a read that failed. -/
  returned : List (Option ChunkRef) := []

namespace Shared

abbrev store (s : Shared) : Store := s.engine.store

abbrev memory (s : Shared) : Memory := s.engine.memory

def withEngine (s : Shared) (e : Engine) : Shared := { s with engine := e }

def onStore (s : Shared) (f : Store → Store) : Shared := s.withEngine (s.engine.onStore f)

def onMemory (s : Shared) (f : Memory → Memory) : Shared := s.withEngine (s.engine.onMemory f)

def addHandle (s : Shared) (h : Handle) : Shared := { s with handles := s.handles ++ [h] }

def logged (s : Shared) (c : ChunkRef) : List (Option ChunkRef) :=
  if s.memory.frees c then some c :: s.returned else s.returned

def retire (s : Shared) (c : ChunkRef) (cause : RemovalCause) : Shared :=
  { s with engine := s.engine.retire c cause, returned := s.logged c }

def unreference (s : Shared) (c : ChunkRef) : Shared :=
  { s with engine := s.engine.onMemory (·.unreference c), returned := s.logged c }

def endPass (s : Shared) : Shared := { s with evicting := false }

end Shared

structure Batch where
  rest : List (ChunkId × Resident)
  evicted : Nat := 0
  /-- There were more candidates than the batch holds. -/
  cut : Bool

/-- Where an eviction pass stands. -/
inductive Pass where
  | compare
  /-- about to wait for a pass that is running -/
  | enter
  | weigh
  /-- looks through the shards from this one on -/
  | collect (shard : Nat) (seen : List (ChunkId × Resident))
  | pick (b : Batch)
  | take (k : ChunkId) (chunk : ChunkRef) (b : Batch)
  | discount (r : Resident) (b : Batch)
  | retire (chunk : ChunkRef) (b : Batch)
  | left

namespace Pass

def batchOf (s : Store) (seen : List (ChunkId × Resident)) : Batch where
  rest := s.leastRecent seen
  cut := s.batchSize < seen.length

/-- After a batch comes the next round, unless the batch was of no use. -/
def endBatch (b : Batch) (light : Bool) (s : Shared) : Pass × Shared :=
  if b.evicted = 0 then
    (.left, { s.endPass with gaveUp := if b.cut && !light then s.gaveUp + 1 else s.gaveUp })
  else (.weigh, s)

def step (s : Shared) : Pass → Option (Pass × Shared)
  | compare =>
    some (if s.store.weightedSize ≤ s.store.capacity.toNat then left else enter, s)
  | enter => if s.evicting then none else some (weigh, { s with evicting := true })
  | weigh =>
    if s.store.weightedSize ≤ s.store.targetWeight then some (left, s.endPass)
    else some (collect 0 [], s)
  | collect shard seen =>
    if shard < s.store.slots.shardCount then
      some (collect (shard + 1) (seen ++ s.store.residentsIn shard), s)
    else if seen.isEmpty then some (left, s.endPass)
    else some (pick (batchOf s.store seen), s)
  | pick b =>
    match b.rest with
    | [] => some (endBatch b false s)
    | (k, r) :: rest =>
      if s.store.weightedSize ≤ s.store.targetWeight then some (endBatch b true s)
      else some (take k r.chunk { b with rest }, s)
  | take k chunk b =>
    match s.store.detachIf k chunk with
    | (some r, store) => some (discount r b, s.onStore fun _ ↦ store)
    | (none, store) => some (pick b, s.onStore fun _ ↦ store)
  | discount r b => some (retire r.chunk b, s.onStore (·.discount r))
  | retire chunk b =>
    some (pick { b with evicted := b.evicted + 1 }, s.retire chunk .size)
  | left => none

end Pass

/-- How the reader of a call acts at the moment it is turned to: what it tells of itself, and how
its read into a block ends. -/
structure Conduct where
  reader : Reader
  outcome : Block → Except Failure Unit × Block

namespace Conduct

def ofReader (r : Reader) (position : UInt64) : Conduct := ⟨r, r.readChunk position⟩

def physicalRead (c : Conduct) : PhysicalRead (Engine × Unit) := fun _ b s ↦ (c.outcome b, s)

def acquire (c : Conduct) (position : UInt64) (roundUp : Bool) (s : Shared) :
    Except Failure Block × Shared :=
  let (result, e, ()) := Engine.acquireFor c.reader position roundUp (s.engine, ())
  (result, s.withEngine e)

def read (c : Conduct) (position : UInt64) (b : Block) (s : Shared) :
    Except Failure Block × Shared :=
  match Engine.readInto c.physicalRead position b (s.engine, ()) with
  | (.ok b, e, ()) => (.ok b, s.withEngine e)
  | (.error f, e, ()) => (.error f, { s.withEngine e with returned := none :: s.returned })

theorem acquire_eq (c : Conduct) (position : UInt64) (roundUp : Bool) (s : Shared) :
    ∃ m, (c.acquire position roundUp s).2 = s.onMemory fun _ ↦ m := by
  simp only [acquire, Engine.acquireFor]
  rcases c.reader.loadSize? position roundUp with _ | size
  · exact ⟨s.memory, rfl⟩
  · exact ⟨_, rfl⟩

theorem store_acquire (c : Conduct) (position : UInt64) (roundUp : Bool) (s : Shared) :
    (c.acquire position roundUp s).2.store = s.store := by
  obtain ⟨m, he⟩ := c.acquire_eq position roundUp s
  rw [he]
  rfl

theorem read_eq (c : Conduct) (position : UInt64) (b : Block) (s : Shared) :
    (∃ b', c.outcome b = (.ok (), b') ∧ c.read position b s = (.ok b', s)) ∨
    (∃ f b', c.outcome b = (.error f, b') ∧ c.read position b s =
      (.error f, { s.onMemory (·.giveBack b') with returned := none :: s.returned })) := by
  simp only [read, Engine.readInto, physicalRead]
  rcases c.outcome b with ⟨_ | _, b'⟩
  · exact .inr ⟨_, b', rfl, rfl⟩
  · exact .inl ⟨b', rfl, rfl⟩

end Conduct

/-- Where a call for a chunk of the table stands. -/
inductive Stage where
  | seek
  | claim
  | await (t : Ticket)
  | borrow (t : Ticket)
  /-- in the physical read -/
  | read (t : Ticket) (b : Block)
  | settle (t : Ticket) (chunk : ChunkRef) (weight : Nat)
  | publish (t : Ticket) (chunk : ChunkRef) (settled : Bool)
  | replace (chunk : ChunkRef)
  | evict (chunk : ChunkRef) (p : Pass)
  | clear (t : Ticket) (f : Failure)
  | announce (t : Ticket) (f : Failure)
  | answered (answer : Except Failure ChunkRef)
  /-- holds a handle on the chunk -/
  | holding (chunk : ChunkRef)

def Lookup.stage : Lookup → Stage
  | hit chunk => .answered (.ok chunk)
  | wait t => .await t
  | load t => .borrow t

def Lookup.event : Lookup → Event
  | hit _ | wait _ => .hit
  | load _ => .miss

def Failure.told (k : ChunkId) : Failure → Error
  | error e => e
  | panic | stuck => .loadAbandoned k.text

def Failure.counted (s : Store) : Failure → Store
  | error _ => s.record (.loadFailed 0)
  | panic | stuck => s

theorem Failure.slots_counted (s : Store) (f : Failure) : (f.counted s).slots = s.slots := by
  cases f <;> rfl

namespace Stage

def found (s : Shared) (l : Lookup) (store : Store) : Stage × Shared :=
  (l.stage, s.onStore fun _ ↦ store.record l.event)

def step (k : ChunkId) (c : Conduct) (s : Shared) : Stage → Option (Stage × Shared)
  | seek =>
    match s.store.find? k with
    | (some l, store) => some (found s l store)
    | (none, store) => some (claim, s.onStore fun _ ↦ store)
  | claim => some (found s (s.store.claim k).1 (s.store.claim k).2)
  | await t =>
    match s.store.result? t with
    | some _ => some (answered (s.engine.receive t), s)
    | none => none
  | borrow t =>
    match c.acquire k.position s.store.settings.roundUp s with
    | (.ok b, s) => some (read t b, s)
    | (.error f, s) => some (clear t f, s)
  | read t b =>
    match c.read k.position b s with
    | (.ok b, s) =>
      let (chunk, e) := s.engine.arrive k b
      some (settle t chunk b.capacity, s.withEngine e)
    | (.error .stuck, _) => none
    | (.error f, s) => some (clear t f, s)
  | settle t chunk weight =>
    let (settled, store) := s.store.settle k t chunk weight
    some (publish t chunk settled, s.onStore fun _ ↦ store)
  | publish t chunk settled =>
    some (if settled then evict chunk .compare else replace chunk,
      s.onStore (·.publish t (.ok chunk)))
  | replace chunk => some (answered (.ok chunk), s.retire chunk .replaced)
  | evict chunk .left => some (answered (.ok chunk), s)
  | evict chunk p => (p.step s).map fun (p, s) ↦ (evict chunk p, s)
  | clear t f => some (announce t f, s.onStore fun s ↦ (f.counted s).clearLoad k t)
  | announce t f =>
    some (answered (.error f), s.onStore (·.publish t (.error (f.told k))))
  | answered _ | holding _ => none

theorem evict_cases {k : ChunkId} {c : Conduct} {s s' : Shared} {chunk : ChunkRef} {p : Pass}
    {x : Stage} (h : step k c s (evict chunk p) = some (x, s')) :
    (p = .left ∧ x = answered (.ok chunk) ∧ s' = s) ∨
    ∃ q, p.step s = some (q, s') ∧ x = evict chunk q := by
  have hpass (h : (p.step s).map (fun (p, s) ↦ (evict chunk p, s)) = some (x, s')) :
      ∃ q, p.step s = some (q, s') ∧ x = evict chunk q := by
    obtain ⟨⟨q, s''⟩, hq, he⟩ := Option.map_eq_some_iff.1 h
    cases he
    exact ⟨q, hq, rfl⟩
  cases p with
  | left =>
    cases h
    exact .inl ⟨rfl, rfl, rfl⟩
  | _ => exact .inr (hpass h)

end Stage

inductive Goal where
  | chunk
  /-- a handle, with so many attempts left after this one -/
  | handle (asked : ChunkId) (attempts : UInt32) (left : Nat)

inductive Direct where
  | borrow
  | read (b : Block)
  | ended (answer : Except Failure ChunkRef)

namespace Direct

def step (asked k : ChunkId) (c : Conduct) (s : Shared) : Direct → Option (Direct × Shared)
  | borrow =>
    match c.acquire k.position false s with
    | (.ok b, s) => some (read b, s)
    | (.error f, s) => some (ended (.error f), s)
  | read b =>
    match c.read k.position b s with
    | (.ok b, s) =>
      let (chunk, memory) := s.memory.adopt b k.position
      some (ended (.ok chunk), (s.onMemory fun _ ↦ memory).addHandle ⟨chunk, some asked⟩)
    | (.error .stuck, _) => none
    | (.error f, s) => some (ended (.error f), s)
  | ended _ => none

end Direct

inductive Removal where
  | detach
  | discount (r : Resident)
  | retire (chunk : ChunkRef)
  | ended (removed : Bool)

namespace Removal

def step (k : ChunkId) (s : Shared) : Removal → Option (Removal × Shared)
  | detach =>
    match s.store.detach k with
    | (some (.resident r), store) => some (discount r, s.onStore fun _ ↦ store)
    | (_, store) => some (ended false, s.onStore fun _ ↦ store)
  | discount r => some (retire r.chunk, s.onStore (·.discount r))
  | retire chunk => some (ended true, s.retire chunk .explicit)
  | ended _ => none

end Removal

inductive Sweep where
  /-- about to clear the shard; `out` was taken out of those before -/
  | clear (shard : Nat) (out : List Resident)
  | discount (shard : Nat) (rest out : List Resident)
  | retire (rest : List Resident) (removed : Nat)
  | ended (removed : Nat)

namespace Sweep

def step (matches? : ChunkId → Bool) (s : Shared) : Sweep → Option (Sweep × Shared)
  | clear shard out =>
    if shard < s.store.slots.shardCount then
      let (more, store) := s.store.detachMatching shard matches?
      some (discount (shard + 1) more out, s.onStore fun _ ↦ store)
    else some (retire out out.length, s)
  | discount shard [] out => some (clear shard out, s)
  | discount shard (r :: rest) out =>
    some (discount shard rest (out ++ [r]), s.onStore (·.discount r))
  | retire [] n => some (ended n, s)
  | retire (r :: rest) n => some (retire rest n, s.retire r.chunk .explicit)
  | ended _ => none

end Sweep

/-- A call is the place it has reached, and a step of it is one of the sections that no other call
can interrupt. A physical read is a step of its own. -/
inductive Call where
  | get (k : ChunkId) (reader : Nat) (goal : Goal) (stage : Stage)
  | direct (asked k : ChunkId) (reader : Nat) (stage : Direct)
  | invalidate (k : ChunkId) (stage : Removal)
  | sweep (matches? : ChunkId → Bool) (stage : Sweep)
  | evict (p : Pass)

namespace Call

def rebuffer (a : Access) (reader : Nat) (position : UInt64) : Call :=
  let asked := a.reader.chunkId position
  let k := a.chunkId position
  match a.mode with
  | .cached attempts =>
    .get k reader (.handle asked attempts (attempts.toNat - 1))
      (if attempts = 0 then .answered (.error (.error (.cacheExhausted k.text attempts)))
        else .seek)
  | .direct => .direct asked k reader .borrow

/-- Tries to make a handle of the chunk that was given, and asks again if it is too late. -/
def takeHandle (k : ChunkId) (reader : Nat) (asked : ChunkId) (attempts : UInt32) (left : Nat)
    (chunk : ChunkRef) (s : Shared) : Call × Shared :=
  match s.memory.reference chunk with
  | (.ok true, memory) =>
    (.get k reader (.handle asked attempts left) (.holding chunk),
      (s.onMemory fun _ ↦ memory).addHandle ⟨chunk, some asked⟩)
  | (.ok false, _) =>
    match left with
    | 0 =>
      (.get k reader (.handle asked attempts 0)
        (.answered (.error (.error (.cacheExhausted k.text attempts)))), s)
    | left + 1 => (.get k reader (.handle asked attempts left) .seek, s)
  | (.error f, _) => (.get k reader (.handle asked attempts left) (.answered (.error f)), s)

def step (c : Conduct) (s : Shared) : Call → Option (Call × Shared)
  | get k reader (.handle asked attempts left) (.answered (.ok chunk)) =>
    some (takeHandle k reader asked attempts left chunk s)
  | get k reader goal stage =>
    (stage.step k c s).map fun (stage, s) ↦ (get k reader goal stage, s)
  | direct asked k reader stage =>
    (stage.step asked k c s).map fun (stage, s) ↦ (direct asked k reader stage, s)
  | invalidate k stage => (stage.step k s).map fun (stage, s) ↦ (invalidate k stage, s)
  | sweep matches? stage =>
    (stage.step matches? s).map fun (stage, s) ↦ (sweep matches? stage, s)
  | evict p => (p.step s).map fun (p, s) ↦ (evict p, s)

theorem get_cases {c : Conduct} {s s' : Shared} {k : ChunkId} {reader : Nat} {goal : Goal}
    {stage : Stage} {x : Call} (h : step c s (get k reader goal stage) = some (x, s')) :
    (∃ asked attempts left chunk, goal = .handle asked attempts left ∧
      stage = .answered (.ok chunk) ∧
      takeHandle k reader asked attempts left chunk s = (x, s')) ∨
    ∃ stage', stage.step k c s = some (stage', s') ∧ x = get k reader goal stage' := by
  have hstage (h : (stage.step k c s).map (fun (stage, s) ↦ (get k reader goal stage, s)) =
      some (x, s')) : ∃ stage', stage.step k c s = some (stage', s') ∧
        x = get k reader goal stage' := by
    obtain ⟨⟨stage', s''⟩, hq, he⟩ := Option.map_eq_some_iff.1 h
    cases he
    exact ⟨stage', hq, rfl⟩
  rcases goal with _ | ⟨asked, attempts, left⟩
  · exact .inr (hstage h)
  · rcases stage with _ | _ | _ | _ | _ | _ | _ | _ | _ | _ | _ | (f | chunk) | _
    case answered.ok => exact .inl ⟨asked, attempts, left, chunk, rfl, rfl, Option.some.inj h⟩
    all_goals exact .inr (hstage h)

def ended : Call → Bool
  | get _ _ .chunk (.answered _) => true
  | get _ _ (.handle ..) (.answered (.error _)) => true
  | get _ _ _ (.holding _) => true
  | direct _ _ _ (.ended _) => true
  | invalidate _ (.ended _) => true
  | sweep _ (.ended _) => true
  | evict .left => true
  | _ => false

end Call

/-- What is shared and the calls on it, known by the order in which they were made. -/
structure Traffic where
  shared : Shared
  calls : List Call := []

inductive Start where
  | get (k : ChunkId) (reader : Nat)
  | rebuffer (a : Access) (reader : Nat) (position : UInt64)
  | invalidate (k : ChunkId)
  | sweep (matches? : ChunkId → Bool)
  | evict

def Start.call : Start → Call
  | get k reader => .get k reader .chunk .seek
  | rebuffer a reader position => .rebuffer a reader position
  | invalidate k => .invalidate k .detach
  | sweep matches? => .sweep matches? (.clear 0 [])
  | evict => .evict .compare

inductive Move where
  | start (call : Start)
  | advance (i : Nat) (conduct : Conduct)
  | reference (chunk : ChunkRef)
  | share (handle : Nat)
  | release (handle : Nat)
  | closeReader (i : Nat)
  | resetCounters

namespace Traffic

def onShared (t : Traffic) (f : Shared → Shared) : Traffic := { t with shared := f t.shared }

/-- A handle where one can be had of a chunk that somebody knows. -/
def takeReference (s : Shared) (chunk : ChunkRef) : Shared :=
  match s.memory.reference chunk with
  | (.ok true, memory) => (s.onMemory fun _ ↦ memory).addHandle ⟨chunk, none⟩
  | _ => s

def step (t : Traffic) : Move → Option Traffic
  | .start c => some { t with calls := t.calls ++ [c.call] }
  | .advance i conduct =>
    match t.calls[i]? with
    | some c => (c.step conduct t.shared).map fun (c, s) ↦ ⟨s, t.calls.set i c⟩
    | none => none
  | .reference chunk => some (t.onShared (takeReference · chunk))
  | .share i =>
    match t.shared.handles[i]? with
    | some h => some (t.onShared fun s ↦ (s.onMemory (·.share h.chunk)).addHandle h)
    | none => none
  | .release i =>
    match t.shared.handles[i]? with
    | some h => some (t.onShared fun s ↦
        { s.unreference h.chunk with handles := s.handles.eraseIdx i })
    | none => none
  | .closeReader i => some (t.onShared fun s ↦ { s with readers := s.readers.modify i Reader.close })
  | .resetCounters => some (t.onShared fun s ↦ s.withEngine s.engine.resetCounters)

theorem advance_cases {t u : Traffic} {i : Nat} {conduct : Conduct}
    (h : t.step (.advance i conduct) = some u) :
    ∃ c c' s, t.calls[i]? = some c ∧ c.step conduct t.shared = some (c', s) ∧
      u = ⟨s, t.calls.set i c'⟩ := by
  simp only [step] at h
  split at h
  · rename_i c hi
    obtain ⟨⟨c', s⟩, hq, he⟩ := Option.map_eq_some_iff.1 h
    exact ⟨c, c', s, hi, hq, he.symm⟩
  · cases h

theorem calls_split {calls : List Call} {i : Nat} {c : Call} (h : calls[i]? = some c) :
    ∃ others, calls.Perm (c :: others) ∧ ∀ c', (calls.set i c').Perm (c' :: others) := by
  obtain ⟨hlt, rfl⟩ := List.getElem?_eq_some_iff.1 h
  exact ⟨calls.eraseIdx i, (List.getElem_cons_eraseIdx_perm hlt).symm,
    List.set_perm_cons_eraseIdx hlt⟩

/-- What is not a step of a call leaves the table alone, and other calls too. -/
theorem step_cases {t u : Traffic} {m : Move} (h : t.step m = some u) :
    (∃ i conduct, m = .advance i conduct) ∨
    ((u.calls = t.calls ∨ ∃ c : Start, u.calls = t.calls ++ [c.call]) ∧
      u.shared.store.slots = t.shared.store.slots ∧
      u.shared.store.weightedSize = t.shared.store.weightedSize ∧
      u.shared.store.settings = t.shared.store.settings ∧
      u.shared.gaveUp = t.shared.gaveUp ∧ u.shared.evicting = t.shared.evicting) := by
  cases m with
  | start c =>
    cases h
    exact .inr ⟨.inr ⟨c, rfl⟩, rfl, rfl, rfl, rfl, rfl⟩
  | advance i conduct => exact .inl ⟨i, conduct, rfl⟩
  | reference chunk =>
    cases h
    refine .inr ⟨.inl rfl, ?_⟩
    simp only [onShared, takeReference]
    split <;> exact ⟨rfl, rfl, rfl, rfl, rfl⟩
  | share i | release i =>
    simp only [step] at h
    split at h
    · cases h
      exact .inr ⟨.inl rfl, rfl, rfl, rfl, rfl, rfl⟩
    · cases h
  | closeReader i =>
    cases h
    exact .inr ⟨.inl rfl, rfl, rfl, rfl, rfl, rfl⟩
  | resetCounters =>
    cases h
    exact .inr ⟨.inl rfl, rfl, rfl, rfl, rfl, rfl⟩

def idle (t : Traffic) : Bool := t.calls.all Call.ended

/-- No calls yet, nothing resident and nothing out of the pool. -/
structure Initial (t : Traffic) : Prop where
  calls : t.calls = []
  handles : t.shared.handles = []
  evicting : t.shared.evicting = false
  gaveUp : t.shared.gaveUp = 0
  returned : t.shared.returned = []
  chunks : t.shared.memory.chunks = #[]
  acquired : t.shared.memory.pool.acquired = 0
  released : t.shared.memory.pool.released = 0
  store : ∃ settings hash, Store.create? settings hash = some t.shared.store

def create? (settings : Store.Settings) (hash : ChunkId → UInt64) : Option Traffic :=
  (Store.create? settings hash).map fun store ↦ { shared := { engine := { store, memory := {} } } }

theorem initial_of_create? {settings : Store.Settings} {hash : ChunkId → UInt64} {t : Traffic}
    (h : create? settings hash = some t) : t.Initial := by
  obtain ⟨store, hstore, rfl⟩ := Option.map_eq_some_iff.1 h
  exact ⟨rfl, rfl, rfl, rfl, rfl, rfl, rfl, rfl, settings, hash, hstore⟩

def alone (i : Nat) (call : Start) (conduct : Conduct) (n : Nat) : List Move :=
  .start call :: List.replicate n (.advance i conduct)

/-- Fewer than `2 ^ 32 - 1` handles on each chunk. -/
def Modest (t : Traffic) : Prop :=
  ∀ c, (t.shared.handles.map Handle.chunk).count c + 1 < UInt32.size

def run (t : Traffic) : List Move → Option Traffic
  | [] => some t
  | m :: rest =>
    (t.step m).bind fun u ↦ if u.shared.handles.length + 1 < UInt32.size then u.run rest else none

def smallFile (path : String) (n : Nat) : Reader where
  source := .ofMemory path (Reader.zeros n)
  chunkSize := 8
  length := .ofNat n
  bufferKind := .standard
  kind := Reader.simpleKind
  closed := false
  crcCheckChance := .one
  statedChunkSize := 8

/-- Room for 10 bytes, and one candidate for eviction at a time. -/
def tight : Store.Settings where
  capacity := 10
  shardCount := 1
  eviction := ⟨"LRU", .one, 1⟩

def loadSmall (i : Nat) (path : String) (n steps : Nat) : List Move :=
  alone i (.get ((smallFile path n).chunkId 0) 0) (.ofReader (smallFile path n) 0) steps

/-- What can be reached from `t` through states that are `sane`. -/
inductive Reaches (sane : Traffic → Prop) (t : Traffic) : Traffic → Prop where
  | refl : Reaches sane t t
  | step {u v : Traffic} (m : Move) : Reaches sane t u → u.step m = some v → sane v →
      Reaches sane t v

theorem Reaches.head {sane : Traffic → Prop} {t u v : Traffic} {m : Move}
    (hs : t.step m = some u) (hu : sane u) (h : u.Reaches sane v) : t.Reaches sane v := by
  induction h with
  | refl => exact .step m .refl hs hu
  | step m' _ hs' hv ih => exact .step m' ih hs' hv

theorem Reaches.trans {sane : Traffic → Prop} {t u v : Traffic} (h : t.Reaches sane u)
    (h' : u.Reaches sane v) : t.Reaches sane v := by
  induction h' with
  | refl => exact h
  | step m _ hs hv ih => exact .step m ih hs hv

theorem modest_of_few {t : Traffic} (h : t.shared.handles.length + 1 < UInt32.size) : t.Modest := by
  intro c
  have hcount := List.count_le_length (a := c) (l := t.shared.handles.map Handle.chunk)
  rw [List.length_map] at hcount
  exact Nat.lt_of_le_of_lt (Nat.succ_le_succ hcount) h

theorem reaches_of_run {t u : Traffic} {moves : List Move} (h : t.run moves = some u) :
    t.Reaches Modest u := by
  induction moves generalizing t with
  | nil =>
    cases h
    exact .refl
  | cons m moves ih =>
    obtain ⟨v, hv, hrest⟩ := Option.bind_eq_some_iff.1 h
    split at hrest
    · rename_i hfew
      exact .head hv (modest_of_few hfew) (ih hrest)
    · cases hrest

end Traffic
end ReadCache
