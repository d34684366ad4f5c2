import ReadCache.Proofs.FreeLists
import ReadCache.Proofs.Lifetimes

namespace ReadCache

def Block.plain (b : Block) : Block := { b with id := 0 }

def Chunk.plain (c : Chunk) : Chunk := { c with block := c.block.map Block.plain }

def Memory.plain (m : Memory) : Memory where
  pool := { m.pool with free := {} }
  chunks := m.chunks.map Chunk.plain

@[simp] theorem Chunk.plain_plain (c : Chunk) : c.plain.plain = c.plain := by
  obtain ⟨offset, capacity, references, _ | b⟩ := c <;> rfl

@[simp] theorem Memory.plain_plain (m : Memory) : m.plain.plain = m.plain := by
  have hchunks : (m.chunks.map Chunk.plain).map Chunk.plain = m.chunks.map Chunk.plain := by
    simp [Array.map_map, Function.comp_def]
  simp only [Memory.plain, hchunks]

theorem Block.capacity_of_plain {b b' : Block} (h : b.plain = b'.plain) :
    b.capacity = b'.capacity := by
  have hcapacity := congrArg Block.capacity h
  exact hcapacity

namespace Chunk

theorem reference_plain (c : Chunk) : c.plain.reference = (c.reference.1, c.reference.2.plain) := by
  have hreferences : c.plain.references = c.references := rfl
  simp only [reference, hreferences]
  split
  · rfl
  · split <;> rfl

theorem unreference_plain (c : Chunk) :
    c.plain.unreference = (c.unreference.1.map Block.plain, c.unreference.2.plain) := by
  have hreferences : c.plain.references = c.references := rfl
  simp only [unreference, hreferences]
  split
  · rfl
  · split <;> rfl

end Chunk

namespace Pool

/-- The blocks that wait are empty, and each has the capacity of its list. -/
def Stocked (p : Pool) : Prop :=
  p.free.Holds fun capacity b ↦
    b.plain = ⟨0, capacity, ByteArray.empty⟩ ∧ capacity < Block.capacityLimit

/-- What a request for a block comes to, but for the identity of the block. -/
def served (limit : Option UInt64) (size : UInt64) (kind : BufferKind) : Except Failure Block :=
  if limit.any (· < size) then .error (.error (.bufferAllocation size "limit"))
  else if size = 0 then .error (.error (FreeLists.zeroSize size))
  else match kind.capacityFor? size.toNat with
    | none => .error .panic
    | some capacity =>
      if capacity < Block.capacityLimit then .ok ⟨0, capacity, ByteArray.empty⟩
      else .error .panic

variable {p : Pool} {size : UInt64} {kind : BufferKind}

theorem capacity_served {limit : Option UInt64} {b : Block} (h : served limit size kind = .ok b) :
    b.capacity < Block.capacityLimit := by
  unfold served at h
  split at h
  · cases h
  split at h
  · cases h
  split at h
  · cases h
  split at h <;> cases h
  assumption

theorem Stocked.release (h : p.Stocked) {b : Block} (hb : b.capacity < Block.capacityLimit) :
    (p.release b).2.Stocked := holds_release h ⟨rfl, hb⟩

theorem acquire_plain (h : p.Stocked) (size : UInt64) (kind : BufferKind) :
    (p.acquire size kind).1.map Block.plain = served p.limit size kind ∧
      { (p.acquire size kind).2 with free := {} } =
        { p with free := {}, acquired := p.acquired + (served p.limit size kind).isOk.toNat } := by
  cases hlimit : p.overLimit size with
  | true =>
    rw [acquire_of_over hlimit]
    rw [overLimit] at hlimit
    simp only [served, hlimit, if_true]
    exact ⟨rfl, rfl⟩
  | false =>
    have hfree : (p.free.acquire size kind).1.map Block.plain = served p.limit size kind := by
      rw [overLimit] at hlimit
      simp only [served, hlimit, Bool.false_eq_true, if_false]
      split
      · rename_i hsize
        rw [FreeLists.acquire, if_pos hsize]
        rfl
      rename_i hsize
      cases hc : kind.capacityFor? size.toNat with
      | none =>
        rw [FreeLists.acquire, if_neg hsize, hc]
        rfl
      | some capacity =>
        rcases FreeLists.Holds.served h hsize hc with ⟨b, he, ⟨hplain, hlt⟩ | ⟨hlt, rfl⟩⟩ | ⟨hle, he⟩
        · simp only [he, hlt, if_true, ← hplain]
          rfl
        · simp only [he, hlt, if_true]
          rfl
        · simp only [he, Nat.not_lt.2 hle, if_false]
          rfl
    rw [acquire_of_within hlimit, ← hfree]
    refine ⟨rfl, ?_⟩
    rcases p.free.acquire size kind with ⟨_ | b, free⟩ <;> rfl

end Pool

namespace Memory
variable {m m' : Memory} {c d : ChunkRef}

/-- The pool is in order and no chunk has a block larger than a block can be. -/
structure Stocked (m : Memory) : Prop where
  pool : m.pool.Stocked
  chunks : ∀ c chunk b, m.chunk? c = some chunk → chunk.block = some b →
    b.capacity < Block.capacityLimit

theorem chunk?_plain (m : Memory) (c : ChunkRef) :
    m.plain.chunk? c = (m.chunk? c).map Chunk.plain := by
  simp only [chunk?, plain, Array.getElem?_map]

theorem plain_setChunk (m : Memory) (c : ChunkRef) (chunk : Chunk) :
    (m.setChunk c chunk).plain = m.plain.setChunk c chunk.plain := by
  simp only [setChunk, plain, Array.map_setIfInBounds]

theorem plain_giveBack (m : Memory) (b : Block) :
    (m.giveBack b).plain =
      { m.plain with pool := { m.plain.pool with released := m.plain.pool.released + 1 } } := by
  simp only [giveBack, Pool.release]
  split <;> rfl

theorem acquire_plain (h : m.Stocked) (size : UInt64) (kind : BufferKind) :
    (m.acquire size kind).1.map Block.plain = Pool.served m.plain.pool.limit size kind ∧
      (m.acquire size kind).2.plain =
        { m.plain with pool := { m.plain.pool with
          acquired := m.plain.pool.acquired +
            (Pool.served m.plain.pool.limit size kind).isOk.toNat } } := by
  obtain ⟨hblock, hpool⟩ := Pool.acquire_plain h.pool size kind
  refine ⟨hblock, ?_⟩
  simp only [acquire, plain, hpool]

theorem Stocked.acquire (h : m.Stocked) (size : UInt64) (kind : BufferKind) :
    (m.acquire size kind).2.Stocked := ⟨Pool.holds_acquire h.pool size kind, h.chunks⟩

theorem Stocked.giveBack (h : m.Stocked) {b : Block} (hb : b.capacity < Block.capacityLimit) :
    (m.giveBack b).Stocked := ⟨h.pool.release hb, h.chunks⟩

theorem plain_adopt (m : Memory) (b : Block) (offset : UInt64) :
    (m.adopt b offset).2.plain = (m.plain.adopt b.plain offset).2 := by
  simp only [adopt, plain, Array.map_push]
  rfl

theorem Stocked.adopt (h : m.Stocked) {b : Block} (hb : b.capacity < Block.capacityLimit)
    (offset : UInt64) : (m.adopt b offset).2.Stocked where
  pool := h.pool
  chunks c chunk b' hc hb' := by
    rw [chunk?_adopt] at hc
    split at hc
    · cases hc
      cases hb'
      exact hb
    · exact h.chunks c chunk b' hc hb'

theorem view?_plain (m : Memory) (c : ChunkRef) : m.plain.view? c = m.view? c := by
  simp only [view?, chunk?_plain]
  rcases m.chunk? c with _ | ⟨offset, capacity, references, _ | b⟩ <;> rfl

theorem reference_plain (m : Memory) (c : ChunkRef) :
    (m.plain.reference c).1 = (m.reference c).1 ∧
      (m.plain.reference c).2 = (m.reference c).2.plain := by
  simp only [Memory.reference, chunk?_plain]
  rcases m.chunk? c with _ | chunk
  · exact ⟨rfl, rfl⟩
  · simp only [Option.map_some, Chunk.reference_plain, plain_setChunk, and_self]

theorem plain_share (m : Memory) (c : ChunkRef) : (m.share c).plain = m.plain.share c := by
  simp only [Memory.share, chunk?_plain]
  rcases m.chunk? c with _ | chunk
  · rfl
  · exact plain_setChunk m c chunk.share

theorem plain_unreference (m : Memory) (c : ChunkRef) :
    (m.unreference c).plain = (m.plain.unreference c).plain := by
  simp only [Memory.unreference, chunk?_plain]
  rcases m.chunk? c with _ | chunk
  · simp
  · simp only [Option.map_some, Chunk.unreference_plain]
    rcases chunk.unreference.1 with _ | b
    · simp [plain_setChunk]
    · simp [plain_setChunk, plain_giveBack]

theorem stocked_of_ages (h : m.Stocked) (hpool : m'.pool.Stocked)
    (hsize : m'.chunks.size = m.chunks.size) (hages : m.Ages m') : m'.Stocked where
  pool := hpool
  chunks c chunk' b hc hb := by
    obtain ⟨chunk, hold⟩ := exists_chunk (hsize ▸ lt_of_chunk? hc)
    obtain ⟨_, hnew, hage⟩ := hages c chunk hold
    obtain rfl := Option.some.inj (hc.symm.trans hnew)
    exact h.chunks c chunk b hold (hage.block b hb)

theorem Stocked.reference (h : m.Stocked) (c : ChunkRef) : (m.reference c).2.Stocked := by
  have hpool : (m.reference c).2.pool = m.pool := by
    unfold Memory.reference
    split <;> rfl
  exact stocked_of_ages h (hpool ▸ h.pool) (size_reference m c) (ages_reference m c)

theorem Stocked.share (h : m.Stocked) (c : ChunkRef) : (m.share c).Stocked := by
  have hpool : (m.share c).pool = m.pool := by
    unfold Memory.share
    split <;> rfl
  exact stocked_of_ages h (hpool ▸ h.pool) (size_share m c) (ages_share m c)

theorem Stocked.unreference (h : m.Stocked) (c : ChunkRef) : (m.unreference c).Stocked := by
  refine stocked_of_ages h ?_ (size_unreference m c) (ages_unreference m c)
  rcases hc : m.chunk? c with _ | chunk
  · rw [Memory.unreference, hc]
    exact h.pool
  · rw [unreference_eq hc]
    split
    · exact h.pool
    · rename_i b hb
      have hage := Chunk.Ages.unreference chunk
      have hblock : chunk.block = some b := by
        unfold Chunk.unreference at hb
        split at hb
        · cases hb
        · split at hb
          · exact hb
          · cases hb
      exact Pool.Stocked.release h.pool (h.chunks c chunk b hc hblock)

theorem plain_unreference_eq (m : Memory) (c : ChunkRef) :
    (m.unreference c).plain =
      { pool := { m.plain.pool with released := m.plain.pool.released + (m.frees c).toNat }
        chunks := m.plain.chunks.modify c fun chunk ↦ chunk.unreference.2 } := by
  rcases hc : m.chunk? c with _ | chunk
  · have hmodify : m.plain.chunks.modify c (fun chunk ↦ chunk.unreference.2) = m.plain.chunks := by
      have hplain : m.plain.chunks[c]? = none := by
        rw [← chunk?, chunk?_plain, hc]
        rfl
      refine Array.ext_getElem? fun i ↦ ?_
      rw [Array.getElem?_modify]
      split
      · subst i
        rw [hplain]
        rfl
      · rfl
    simp [Memory.unreference, frees, hc, hmodify]
  · have hmodify : (m.setChunk c chunk.unreference.2).plain.chunks =
        m.plain.chunks.modify c fun chunk ↦ chunk.unreference.2 := by
      have hplain : m.plain.chunks[c]? = some chunk.plain := by
        rw [← chunk?, chunk?_plain, hc]
        rfl
      rw [plain_setChunk]
      refine Array.ext_getElem? fun i ↦ ?_
      simp only [setChunk, Array.getElem?_setIfInBounds, Array.getElem?_modify]
      split
      · subst i
        obtain ⟨hlt, -⟩ := Array.getElem?_eq_some_iff.1 hplain
        rw [hplain, if_pos hlt, Option.map_some, Chunk.unreference_plain]
      · rfl
    rw [unreference_eq hc]
    rcases hb : chunk.unreference.1 with _ | b
    · simp only [frees, hc, Option.bind_some, hb, ← hmodify]
      rfl
    · simp only [plain_giveBack, frees, hc, Option.bind_some, hb, ← hmodify]
      rfl

theorem frees_unreference (m : Memory) {c d : ChunkRef} (h : c ≠ d) :
    (m.unreference c).frees d = m.frees d := by
  rcases hc : m.chunk? c with _ | chunk
  · rw [Memory.unreference, hc]
  · rw [frees, chunk?_unreference hc, if_neg h, frees]

theorem plain_unreference_comm (m : Memory) (c d : ChunkRef) :
    ((m.unreference c).unreference d).plain = ((m.unreference d).unreference c).plain := by
  by_cases he : c = d
  · rw [he]
  -- Two chunks lose their references independently, and what goes to the pool is only counted.
  have hchunks : (m.plain.chunks.modify c fun chunk ↦ chunk.unreference.2).modify d
        (fun chunk ↦ chunk.unreference.2) =
      (m.plain.chunks.modify d fun chunk ↦ chunk.unreference.2).modify c
        fun chunk ↦ chunk.unreference.2 := by
    refine Array.ext_getElem? fun i ↦ ?_
    simp only [Array.getElem?_modify]
    by_cases hc : c = i
    · subst hc
      simp [Ne.symm he]
    · simp [hc]
  simp only [plain_unreference_eq, frees_unreference m he, frees_unreference m (Ne.symm he),
    hchunks]
  rw [Nat.add_right_comm]

theorem plain_unreferenceAll (m : Memory) (out : List ChunkRef) :
    (out.foldl Memory.unreference m).plain = (out.foldl Memory.unreference m.plain).plain := by
  induction out generalizing m with
  | nil => exact m.plain_plain.symm
  | cons c out ih => rw [List.foldl_cons, ih, plain_unreference, ← ih, List.foldl_cons]

theorem plain_unreferenceAll_perm {out out' : List ChunkRef} (h : out.Perm out') (m : Memory) :
    (out.foldl Memory.unreference m).plain = (out'.foldl Memory.unreference m).plain := by
  -- The induction is on how one order comes from the other, which is by swaps of neighbours.
  induction h generalizing m with
  | nil => rfl
  | cons c _ ih => exact ih (m.unreference c)
  | swap c d out =>
    simp only [List.foldl_cons]
    rw [plain_unreferenceAll, plain_unreference_comm, ← plain_unreferenceAll]
  | trans _ _ ih ih' => exact (ih m).trans (ih' m)

theorem Stocked.unreferenceAll (h : m.Stocked) (out : List ChunkRef) :
    (out.foldl Memory.unreference m).Stocked := by
  induction out generalizing m with
  | nil => exact h
  | cons c out ih => exact ih (h.unreference c)

end Memory
end ReadCache
