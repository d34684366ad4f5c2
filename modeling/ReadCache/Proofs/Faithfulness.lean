import ReadCache.Proofs.Lifetimes
import ReadCache.Proofs.Session

namespace ReadCache

namespace Memory

/-- Chunks may lose their block, but it never changes under them. -/
def Keeps (m m' : Memory) : Prop :=
  ∀ c chunk, m.chunk? c = some chunk → ∃ chunk', m'.chunk? c = some chunk' ∧
    chunk'.offset = chunk.offset ∧ ∀ b, chunk'.block = some b → chunk.block = some b

def Holds (m : Memory) (files : Files) (k : ChunkId) (c : ChunkRef) : Prop :=
  ∃ chunk, m.chunk? c = some chunk ∧ chunk.offset = k.position ∧
    ∀ b, chunk.block = some b → b.bytes = files.slice k

variable {m m' m'' : Memory} {files : Files} {k : ChunkId} {c : ChunkRef} {chunk : Chunk}

theorem Holds.mono (h : m.Holds files k c) (hm : m.Keeps m') : m'.Holds files k c := by
  obtain ⟨chunk, hc, hoffset, hblock⟩ := h
  obtain ⟨chunk', hc', hoffset', hblock'⟩ := hm c chunk hc
  exact ⟨chunk', hc', hoffset'.trans hoffset, fun b hb ↦ hblock b (hblock' b hb)⟩

theorem keeps_of_chunks (h : m'.chunks = m.chunks) : m.Keeps m' :=
  fun c chunk hc ↦ ⟨chunk, by rwa [chunk?, h], rfl, fun _ hb ↦ hb⟩

theorem keeps_refl (m : Memory) : m.Keeps m := keeps_of_chunks rfl

theorem Keeps.trans (h : m.Keeps m') (h' : m'.Keeps m'') : m.Keeps m'' := by
  intro c chunk hc
  obtain ⟨chunk', hc', hoffset, hblock⟩ := h c chunk hc
  obtain ⟨chunk'', hc'', hoffset', hblock'⟩ := h' c chunk' hc'
  exact ⟨chunk'', hc'', hoffset'.trans hoffset, fun b hb ↦ hblock b (hblock' b hb)⟩

theorem Ages.keeps (h : m.Ages m') : m.Keeps m' := by
  intro c chunk hc
  obtain ⟨chunk', hc', hage⟩ := h c chunk hc
  exact ⟨chunk', hc', hage.offset, hage.block⟩

theorem keeps_adopt (m : Memory) (b : Block) (offset : UInt64) :
    m.Keeps (m.adopt b offset).2 := (ages_adopt m b offset).keeps

theorem keeps_share (m : Memory) (c : ChunkRef) : m.Keeps (m.share c) := (ages_share m c).keeps

theorem keeps_reference (m : Memory) (c : ChunkRef) : m.Keeps (m.reference c).2 :=
  (ages_reference m c).keeps

theorem keeps_unreference (m : Memory) (c : ChunkRef) : m.Keeps (m.unreference c) :=
  (ages_unreference m c).keeps

theorem holds_adopt {b : Block} (hb : b.bytes = files.slice k) :
    (m.adopt b k.position).2.Holds files k (m.adopt b k.position).1 := by
  refine ⟨.ofBlock b k.position, ?_, rfl, ?_⟩
  · simp [chunk?, Memory.adopt]
  · intro b' h
    cases h
    exact hb

end Memory

namespace Store

/-- Slots may have gone, but none came or changed. -/
structure Shrinks (s s' : Store) : Prop where
  slots : s'.slots.toList ⊆ s.slots.toList
  results : s'.results = s.results

/-- A table that has its chunks and its loads under their own keys; those of the loads are
`keys`. -/
structure Faithful (s : Store) (files : Files) (keys : List ChunkId) (m : Memory) : Prop where
  begun : keys.length = s.results.size
  resident : ∀ k r, (k, .resident r) ∈ s.slots.toList → m.Holds files k r.chunk
  loading : ∀ k t, (k, .loading t) ∈ s.slots.toList → keys[t]? = some k
  result : ∀ k t c, keys[t]? = some k → s.result? t = some (.ok c) → m.Holds files k c

variable {s s' : Store} {files : Files} {keys : List ChunkId} {m m' : Memory} {k : ChunkId}

theorem shrinks_of_slots (hs : s'.slots = s.slots) (hr : s'.results = s.results) : s.Shrinks s' :=
  ⟨hs ▸ List.Subset.refl _, hr⟩

theorem shrinks_detach (s : Store) (k : ChunkId) : s.Shrinks (s.detach k).2 :=
  ⟨fun _ ↦ ShardedMap.mem_of_mem_erase, rfl⟩

theorem shrinks_detachMatching (s : Store) (i : Nat) (matches? : ChunkId → Bool) :
    s.Shrinks (s.detachMatching i matches?).2 :=
  ⟨fun _ ↦ ShardedMap.mem_of_mem_filterShard, rfl⟩

theorem shrinks_clearLoad (s : Store) (k : ChunkId) (t : Ticket) :
    s.Shrinks (s.clearLoad k t) := by
  unfold clearLoad
  split
  · exact shrinks_detach s k
  · exact shrinks_of_slots rfl rfl

namespace Faithful

theorem shrink (h : s.Faithful files keys m) (hs : s.Shrinks s') (hm : m.Keeps m') :
    s'.Faithful files keys m' where
  begun := by rw [hs.results, h.begun]
  resident k r hr := (h.resident k r (hs.slots hr)).mono hm
  loading k t ht := h.loading k t (hs.slots ht)
  result k t c hk hc := by
    rw [result?, hs.results] at hc
    exact (h.result k t c hk hc).mono hm

theorem insert (h : s.Faithful files keys m) {r : Resident} (hr : m.Holds files k r.chunk)
    (hs : s'.slots = s.slots.insert k (.resident r)) (he : s'.results = s.results) :
    s'.Faithful files keys m where
  begun := by rw [he, h.begun]
  resident k' r' hm := by
    rw [hs] at hm
    rcases ShardedMap.mem_or_mem_of_mem_insert hm with he | hm
    · cases he
      exact hr
    · exact h.resident k' r' hm
  loading k' t hm := by
    rw [hs] at hm
    rcases ShardedMap.mem_or_mem_of_mem_insert hm with he | hm
    · cases he
    · exact h.loading k' t hm
  result k t c hk hc := h.result k t c hk (by rwa [result?, he] at hc)

theorem touch (h : s.Faithful files keys m) {r : Resident}
    (hr : s.slots.get? k = some (.resident r)) : (s.touch k r).Faithful files keys m := by
  unfold Store.touch
  split
  · exact h.insert (r := { r with lastAccess := s.clock })
      (h.resident k r (ShardedMap.mem_of_get?_some hr)) rfl rfl
  · exact h

theorem begin (h : s.Faithful files keys m) (k : ChunkId) :
    Faithful { s with
      slots := s.slots.insert k (.loading s.results.size)
      results := s.results.push none } files (keys ++ [k]) m where
  begun := by simp [h.begun]
  resident k' r hm := by
    rcases ShardedMap.mem_or_mem_of_mem_insert hm with he | hm
    · cases he
    · exact h.resident k' r hm
  loading k' t hm := by
    rcases ShardedMap.mem_or_mem_of_mem_insert hm with he | hm
    · cases he
      simp [← h.begun]
    · have ht := h.loading k' t hm
      rwa [List.getElem?_append_left (List.getElem?_eq_some_iff.1 ht).1]
  result k' t c hk hc := by
    simp only [result?, Array.getElem?_push] at hc
    split at hc
    · cases hc
    · rename_i hne
      have hlt := (List.getElem?_eq_some_iff.1 hk).1
      rw [List.length_append, List.length_singleton] at hlt
      have hold : t < keys.length :=
        Nat.lt_of_le_of_ne (Nat.lt_succ_iff.1 hlt) fun e ↦ hne (e.trans h.begun)
      rw [List.getElem?_append_left hold] at hk
      exact h.result k' t c hk hc

theorem settle (h : s.Faithful files keys m) {t : Ticket} {c : ChunkRef} {weight : Nat}
    (hc : m.Holds files k c) : (s.settle k t c weight).2.Faithful files keys m := by
  unfold Store.settle
  split
  · exact h.insert (r := ⟨c, weight, s.clock⟩) hc rfl rfl
  · exact h

theorem publish (h : s.Faithful files keys m) {t : Ticket} {result : Except Error ChunkRef}
    (hk : keys[t]? = some k) (hc : ∀ c, result = .ok c → m.Holds files k c) :
    (s.publish t result).Faithful files keys m where
  begun := by simpa [Store.publish] using h.begun
  resident := h.resident
  loading := h.loading
  result k' t' c hk' hr := by
    by_cases ht : t = t'
    · subst ht
      rw [hk] at hk'
      cases hk'
      simp only [Store.publish, result?, Array.getElem?_setIfInBounds, if_true] at hr
      split at hr
      · exact hc c (Option.some.inj hr)
      · cases hr
    · refine h.result k' t' c hk' ?_
      simpa only [Store.publish, result?, Array.getElem?_setIfInBounds, if_neg ht] using hr

end Faithful
end Store

/-- The key of the chunk that what was asked for lies in. -/
structure Files.Covers (files : Files) (k asked : ChunkId) : Prop where
  path : k.path = asked.path
  kind : k.kind = asked.kind
  position : k.position.toNat = (files asked.path asked.kind).start asked.position.toNat

namespace Shared

structure Shrinks (s s' : Shared) : Prop where
  store : s.store.Shrinks s'.store
  memory : s.memory.Keeps s'.memory
  handles : s'.handles = s.handles
  readers : s'.readers = s.readers

structure Faithful (s : Shared) (files : Files) (keys : List ChunkId) : Prop where
  store : s.store.Faithful files keys s.memory
  handles : ∀ h ∈ s.handles, ∀ asked, h.asked = some asked →
    ∃ k, files.Covers k asked ∧ s.memory.Holds files k h.chunk

/-- What others may rely on while a step is made. -/
structure Evolves (s : Shared) (files : Files) (keys : List ChunkId) (s' : Shared)
    (keys' : List ChunkId) : Prop where
  keys : keys <+: keys'
  memory : s.memory.Keeps s'.memory
  readers : s'.readers = s.readers
  faithful : s'.Faithful files keys'

variable {s s' s'' : Shared} {files : Files} {keys keys' : List ChunkId}

theorem shrinks_of_engine (he : s'.engine = s.engine) (hh : s'.handles = s.handles)
    (hr : s'.readers = s.readers) : s.Shrinks s' := by
  have hstore : s'.store = s.store := congrArg Engine.store he
  have hmemory : s'.memory = s.memory := congrArg Engine.memory he
  refine ⟨?_, Memory.keeps_of_chunks (congrArg Memory.chunks hmemory), hh, hr⟩
  exact Store.shrinks_of_slots (congrArg Store.slots hstore) (congrArg Store.results hstore)

theorem shrinks_onStore {store : Store} (h : s.store.Shrinks store) :
    s.Shrinks (s.onStore fun _ ↦ store) := ⟨h, Memory.keeps_refl _, rfl, rfl⟩

theorem shrinks_retire (s : Shared) (c : ChunkRef) (cause : RemovalCause) :
    s.Shrinks (s.retire c cause) :=
  ⟨Store.shrinks_of_slots rfl rfl, Memory.keeps_unreference _ c, rfl, rfl⟩

theorem shrinks_giveBack (s : Shared) (b : Block) :
    s.Shrinks { s.onMemory (·.giveBack b) with returned := none :: s.returned } :=
  ⟨Store.shrinks_of_slots rfl rfl, Memory.keeps_of_chunks rfl, rfl, rfl⟩

namespace Faithful

theorem shrink (h : s.Faithful files keys) (hs : s.Shrinks s') : s.Evolves files keys s' keys where
  keys := List.prefix_refl keys
  memory := hs.memory
  readers := hs.readers
  faithful := by
    refine ⟨h.store.shrink hs.store hs.memory, fun handle hm asked ha ↦ ?_⟩
    rw [hs.handles] at hm
    obtain ⟨k, hk, hc⟩ := h.handles handle hm asked ha
    exact ⟨k, hk, hc.mono hs.memory⟩

theorem onStore (h : s.Faithful files keys) {store : Store} (hk : keys <+: keys')
    (hs : store.Faithful files keys' s.memory) :
    s.Evolves files keys (s.onStore fun _ ↦ store) keys' :=
  ⟨hk, Memory.keeps_refl _, rfl, hs, h.handles⟩

theorem onMemory (h : s.Faithful files keys) {m : Memory} (hm : s.memory.Keeps m) :
    s.Evolves files keys (s.onMemory fun _ ↦ m) keys :=
  h.shrink ⟨Store.shrinks_of_slots rfl rfl, hm, rfl, rfl⟩

theorem addHandle (h : s.Faithful files keys) {handle : Handle}
    (hh : ∀ asked, handle.asked = some asked →
      ∃ k, files.Covers k asked ∧ s.memory.Holds files k handle.chunk) :
    s.Evolves files keys (s.addHandle handle) keys where
  keys := List.prefix_refl keys
  memory := Memory.keeps_refl _
  readers := rfl
  faithful := by
    refine ⟨h.store, fun other hm ↦ ?_⟩
    rcases List.mem_append.1 hm with hm | hm
    · exact h.handles other hm
    · rw [List.mem_singleton.1 hm]
      exact hh

end Faithful

theorem Evolves.trans {keys'' : List ChunkId} (h : s.Evolves files keys s' keys')
    (h' : s'.Evolves files keys' s'' keys'') : s.Evolves files keys s'' keys'' :=
  ⟨h.keys.trans h'.keys, h.memory.trans h'.memory, h'.readers.trans h.readers, h'.faithful⟩

end Shared

section
variable {s s' : Shared} {files : Files} {keys : List ChunkId}

theorem Shared.Drops.shrinks (h : s.Drops s') : s.Shrinks s' := by
  cases h with
  | detach k => exact Shared.shrinks_onStore (Store.shrinks_detach s.store k)
  | clear shard matches? =>
    exact Shared.shrinks_onStore (Store.shrinks_detachMatching s.store shard matches?)
  | discount => exact Shared.shrinks_onStore (Store.shrinks_of_slots rfl rfl)
  | retire c cause => exact Shared.shrinks_retire s c cause
  | pass => exact Shared.shrinks_of_engine rfl rfl rfl

def Stage.Faithful (files : Files) (keys : List ChunkId) (m : Memory) (k : ChunkId) : Stage → Prop
  | seek | claim | answered (.error _) => True
  | await t | borrow t | read t _ | clear t _ | announce t _ => keys[t]? = some k
  | settle t chunk _ | publish t chunk _ => keys[t]? = some k ∧ m.Holds files k chunk
  | replace chunk | evict chunk _ | answered (.ok chunk) | holding chunk => m.Holds files k chunk

theorem Stage.Faithful.mono {keys' : List ChunkId} {m m' : Memory} {k : ChunkId} {x : Stage}
    (h : x.Faithful files keys m k) (hk : keys <+: keys') (hm : m.Keeps m') :
    x.Faithful files keys' m' k := by
  have hticket (t : Ticket) (ht : keys[t]? = some k) : keys'[t]? = some k := by
    obtain ⟨more, rfl⟩ := hk
    rwa [List.getElem?_append_left (List.getElem?_eq_some_iff.1 ht).1]
  rcases x with _ | _ | t | t | ⟨t, b⟩ | ⟨t, c, w⟩ | ⟨t, c, w⟩ | c | ⟨c, p⟩ | ⟨t, f⟩ | ⟨t, f⟩ | (f | c) | c
  case await | borrow | read | clear | announce => exact hticket t h
  case settle | publish => exact ⟨hticket t h.1, h.2.mono hm⟩
  case replace | evict | answered.ok | holding => exact Memory.Holds.mono h hm
  all_goals trivial

def Conduct.Fits (c : Conduct) (bytes : ByteArray) : Prop :=
  ∀ b b', c.outcome b = (.ok (), b') → b'.bytes = bytes

theorem Conduct.evolves_acquire (h : s.Faithful files keys) (c : Conduct) (position : UInt64)
    (roundUp : Bool) : s.Evolves files keys (c.acquire position roundUp s).2 keys := by
  simp only [acquire, Engine.acquireFor]
  rcases c.reader.loadSize? position roundUp with _ | size
  · exact h.shrink (Shared.shrinks_of_engine rfl rfl rfl)
  · exact h.onMemory (Memory.keeps_of_chunks rfl)

theorem Stage.step_faithful {k : ChunkId} {c : Conduct} {x x' : Stage}
    (h : s.Faithful files keys) (hx : x.Faithful files keys s.memory k)
    (hc : c.Fits (files.slice k)) (hs : x.step k c s = some (x', s')) :
    ∃ keys', s.Evolves files keys s' keys' ∧ x'.Faithful files keys' s'.memory k := by
  have hkeep {x' : Stage} {s' : Shared} (he : s.Evolves files keys s' keys)
      (hx' : x'.Faithful files keys s'.memory k) :
      ∃ keys', s.Evolves files keys s' keys' ∧ x'.Faithful files keys' s'.memory k :=
    ⟨keys, he, hx'⟩
  have hcount {store : Store} {keys' : List ChunkId} {e : Event} (hk : keys <+: keys')
      (hstore : store.Faithful files keys' s.memory) :
      s.Evolves files keys (s.onStore fun _ ↦ store.record e) keys' :=
    h.onStore hk (hstore.shrink (Store.shrinks_of_slots rfl rfl) (Memory.keeps_refl _))
  have hsame := h.shrink (Shared.shrinks_of_engine (s := s) rfl rfl rfl)
  cases steps hs with
  | hit hr | hitLate hr =>
    exact hkeep (hcount (List.prefix_refl keys) (h.store.touch hr))
      (h.store.resident k _ (ShardedMap.mem_of_get?_some hr))
  | join ht | joinLate ht =>
    exact hkeep (hcount (List.prefix_refl keys) h.store)
      (h.store.loading k _ (ShardedMap.mem_of_get?_some ht))
  | miss => exact hkeep hsame trivial
  | begin hn =>
    rw [Store.claim_of_free hn]
    refine ⟨keys ++ [k], hcount (List.prefix_append _ _) (h.store.begin k), ?_⟩
    simp [Faithful, ← h.store.begun]
  | @receive t chunk hr => exact hkeep hsame (h.store.result k t chunk hx hr)
  | receiveError => exact hkeep hsame trivial
  | borrow | refuse => exact hkeep (c.evolves_acquire h _ _) hx
  | @arrive t b b' hb =>
    refine hkeep (h.shrink ⟨?_, Memory.keeps_adopt _ b' k.position, rfl, rfl⟩) ?_
    · exact Store.shrinks_of_slots rfl rfl
    · exact ⟨hx, Memory.holds_adopt (hc b b' hb)⟩
  | fail => exact hkeep (h.shrink (Shared.shrinks_giveBack s _)) hx
  | settle => exact hkeep (h.onStore (List.prefix_refl keys) (h.store.settle hx.2)) hx
  | lose => exact hkeep hsame hx
  | publish | withhold =>
    refine hkeep (h.onStore (List.prefix_refl keys) (h.store.publish hx.1 fun c hc ↦ ?_)) hx.2
    cases hc
    exact hx.2
  | @replace chunk =>
    have he := h.shrink (Shared.shrinks_retire s chunk .replaced)
    exact hkeep he (Memory.Holds.mono hx he.memory)
  | leave => exact hkeep hsame hx
  | pass hq =>
    have he := h.shrink (Pass.step_drops hq).shrinks
    exact hkeep he (Memory.Holds.mono hx he.memory)
  | @clear t f =>
    have hless := Store.shrinks_clearLoad (f.counted s.store) k t
    have hresults : (f.counted s.store).results = s.store.results := by cases f <;> rfl
    refine hkeep (h.shrink (Shared.shrinks_onStore ⟨?_, hless.results.trans hresults⟩)) hx
    exact f.slots_counted s.store ▸ hless.slots
  | announce =>
    refine hkeep (h.onStore (List.prefix_refl keys) (h.store.publish hx fun c hc ↦ ?_)) trivial
    cases hc

theorem Direct.step_faithful {asked k : ChunkId} {c : Conduct} {x x' : Direct}
    (h : s.Faithful files keys) (hk : files.Covers k asked) (hc : c.Fits (files.slice k))
    (hs : x.step asked k c s = some (x', s')) : s.Evolves files keys s' keys := by
  cases steps hs with
  | borrow | refuse => exact c.evolves_acquire h _ _
  | @arrive b b' hb =>
    have hadopt := h.onMemory (Memory.keeps_adopt s.memory b' k.position)
    refine hadopt.trans (hadopt.faithful.addHandle fun asked' ha ↦ ?_)
    cases ha
    exact ⟨k, hk, Memory.holds_adopt (hc b b' hb)⟩
  | fail => exact h.shrink (Shared.shrinks_giveBack s _)

def Opens (readers : List Reader) (i : Nat) (path kind : String) : Prop :=
  ∃ r, readers[i]? = some r ∧ r.path = path ∧ r.kind = kind

/-- A call reads the file of its key, and its key is of what was asked for. -/
def Call.Faithful (files : Files) (keys : List ChunkId) (s : Shared) : Call → Prop
  | get k reader goal x => Opens s.readers reader k.path k.kind ∧
      (∀ asked attempts left, goal = .handle asked attempts left → files.Covers k asked) ∧
      x.Faithful files keys s.memory k
  | direct asked k reader _ => Opens s.readers reader k.path k.kind ∧ files.Covers k asked
  | _ => True

theorem Call.Faithful.mono {keys' : List ChunkId} {x : Call} (h : x.Faithful files keys s)
    (hk : keys <+: keys') (hm : s.memory.Keeps s'.memory)
    (hr : ∀ i path kind, Opens s.readers i path kind → Opens s'.readers i path kind) :
    x.Faithful files keys' s' := by
  cases x with
  | get k reader goal x => exact ⟨hr _ _ _ h.1, h.2.1, h.2.2.mono hk hm⟩
  | direct asked k reader x => exact ⟨hr _ _ _ h.1, h.2⟩
  | _ => trivial

theorem Call.step_faithful {c : Conduct} {x x' : Call} (h : s.Faithful files keys)
    (hx : x.Faithful files keys s) (hc : ∀ i k, x.reads = some (i, k) → c.Fits (files.slice k))
    (hs : x.step c s = some (x', s')) :
    ∃ keys', s.Evolves files keys s' keys' ∧ x'.Faithful files keys' s' := by
  have hsame := h.shrink (Shared.shrinks_of_engine (s := s) rfl rfl rfl)
  -- The attempts that are left do not matter to what is covered.
  have hleft {k asked : ChunkId} {attempts : UInt32} {left : Nat} (hk : files.Covers k asked)
      (asked' : ChunkId) (attempts' : UInt32) (left' : Nat)
      (he : Goal.handle asked attempts left = .handle asked' attempts' left') :
      files.Covers k asked' := by
    cases he
    exact hk
  cases steps hs with
  | @stage k reader goal x x' _ hq =>
    obtain ⟨hreader, hgoal, hstage⟩ := hx
    obtain ⟨keys', he, hstage'⟩ := Stage.step_faithful h hstage (hc reader k rfl) hq
    exact ⟨keys', he, he.readers ▸ hreader, hgoal, hstage'⟩
  | @take k asked reader left attempts chunk =>
    obtain ⟨hreader, hgoal, hstage⟩ := hx
    have hreference := Memory.keeps_reference s.memory chunk
    have hone := h.onMemory hreference
    have hholds := Memory.Holds.mono hstage hreference
    refine ⟨keys, hone.trans (hone.faithful.addHandle fun asked' ha ↦ ?_), hreader, hgoal, hholds⟩
    cases ha
    exact ⟨k, hgoal asked attempts left rfl, hholds⟩
  | retry | exhaust | overflow =>
    obtain ⟨hreader, hgoal, -⟩ := hx
    exact ⟨keys, hsame, hreader, hleft (hgoal _ _ _ rfl), trivial⟩
  | @direct asked k reader x x' _ hq =>
    have he := Direct.step_faithful h hx.2 (hc reader k rfl) hq
    exact ⟨keys, he, he.readers ▸ hx.1, hx.2⟩
  | invalidate hq => exact ⟨keys, h.shrink (Removal.step_drops hq).shrinks, trivial⟩
  | sweep hq => exact ⟨keys, h.shrink (Sweep.step_drops hq).shrinks, trivial⟩
  | evict hq => exact ⟨keys, h.shrink (Pass.step_drops hq).shrinks, trivial⟩

end
end ReadCache
