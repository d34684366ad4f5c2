import ReadCache.Proofs.FailedLoads
import ReadCache.Proofs.Retention
import ReadCache.Proofs.ShortReads

namespace ReadCache

def Asks (roundUp : Bool) (length request : Nat) : Prop :=
  if roundUp then IsLeast {n | length ≤ n ∧ ∃ e, n = 2 ^ e} request else request = length

theorem Asks.le {roundUp : Bool} {length request : Nat} (h : Asks roundUp length request) :
    length ≤ request := by
  cases roundUp with
  | false => exact Nat.le_of_eq h.symm
  | true => exact h.1.1

theorem Asks.eq_one {roundUp : Bool} {request : Nat} (h : Asks roundUp 1 request) : request = 1 := by
  refine Nat.le_antisymm ?_ h.le
  cases roundUp with
  | false => exact Nat.le_of_eq h
  | true => exact h.2 ⟨Nat.le_refl 1, 0, rfl⟩

theorem BufferKind.Suits.le {kind : BufferKind} {size capacity : Nat}
    (h : kind.Suits size capacity) : size ≤ capacity := by
  cases kind with
  | standard => exact Nat.le_of_eq h.symm
  | aligned => exact h.1.1

namespace Reader
variable {r : Reader} {position : UInt64}

theorem exists_request (hpow : isPowerOfTwo r.statedChunkSize = true) (position : UInt64)
    (roundUp : Bool) : ∃ request : UInt64, r.loadSize? position roundUp = some request ∧
      Asks roundUp (max 1 (min (r.length.toNat - position.toNat) r.statedChunkSize.toNat))
        request.toNat ∧ request ≤ r.statedChunkSize := by
  obtain ⟨k, -, hsize⟩ := toNat_of_isPowerOfTwo hpow
  have hword := r.statedChunkSize.toNat_lt
  have hpos := Nat.two_pow_pos k
  have hmost : max 1 (min (r.length.toNat - position.toNat) r.statedChunkSize.toNat) ≤
      r.statedChunkSize.toNat := by omega
  have hleast := Nat.le_max_left 1 (min (r.length.toNat - position.toNat) r.statedChunkSize.toNat)
  simp only [loadSize?]
  generalize max 1 (min (r.length.toNat - position.toNat) r.statedChunkSize.toNat) = length at *
  have hasked {n : Nat} (hn : n ≤ r.statedChunkSize.toNat) : (UInt64.ofNat n).toNat = n :=
    UInt64.toNat_ofNat_of_lt' (Nat.lt_of_le_of_lt hn hword)
  cases roundUp with
  | false =>
    refine ⟨_, rfl, hasked hmost, ?_⟩
    rw [UInt64.le_iff_toNat_le, hasked hmost]
    exact hmost
  | true =>
    have hpower := isLeast_powerOfTwoFrom length
    rw [Nat.max_eq_right hleast] at hpower
    have hle : powerOfTwoFrom length ≤ r.statedChunkSize.toNat := hpower.2 ⟨hmost, k, hsize⟩
    refine ⟨.ofNat (powerOfTwoFrom length), ?_, ?_, ?_⟩
    · rw [if_pos rfl, powerOfTwoFrom?, if_pos (Nat.lt_of_le_of_lt hle hword), Option.map_some]
    · rw [hasked hle]
      exact hpower
    · rw [UInt64.le_iff_toNat_le, hasked hle]
      exact hle

end Reader

structure Memory.Serves (m : Memory) (request : UInt64) (kind : BufferKind) (b : Block)
    (pool : Pool) : Prop where
  acquire : m.acquire request kind = (.ok b, { m with pool })
  suits : kind.Suits request.toNat b.capacity
  empty : b.bytes = ByteArray.empty
  acquired : pool.acquired = m.pool.acquired + 1
  released : pool.released = m.pool.released

theorem Memory.exists_serves {m : Memory} (h : m.pool.free.Tidy) (hlimit : m.pool.limit = none)
    {request : UInt64} (kind : BufferKind) (hpos : 1 ≤ request.toNat)
    (hle : request.toNat ≤ Block.capacityLimit - pageSize) :
    ∃ b pool, m.Serves request kind b pool := by
  obtain ⟨b, free, hacquire, hempty, hsuits⟩ := h.acquire_ok kind hpos hle
  have hserved : m.pool.overLimit request = false := by simp [Pool.overLimit, hlimit]
  refine ⟨b, { m.pool with free, acquired := m.pool.acquired + 1 }, ?_, hsuits, hempty, rfl, rfl⟩
  simp only [Memory.acquire, Pool.acquire_of_within hserved, hacquire]
  rfl

/-- The block comes to its slot with the weight `w`, and when it is given back it goes to the list
of `w`, where there is room for it. -/
structure Block.Weighs (b : Block) (w : Nat) : Prop where
  lands : ∀ (e : Engine) (k : ChunkId) (t : Ticket), e.store.slots.Proper →
    e.store.owns k t = true →
    ∃ e' : Engine, e.land k t b = (e.memory.chunks.size, e'.evictIfNeeded) ∧
      e'.store.slots.get? k = some (.resident ⟨e.memory.chunks.size, w, e.store.clock⟩) ∧
      e'.store.weightedSize = e.store.weightedSize + w
  returns : ∀ f : FreeLists, f.retainedBytes + w ≤ f.maxRetainedBytes.toNat →
    (f.release b).lists.get? w = some (b.clear :: (f.lists.get? w).getD [])

theorem Block.weighs_capacity (b : Block) : b.Weighs b.capacity where
  lands e k t hp ho := by
    have howns : (e.arrive k b).2.store.owns k t = true := ho
    have hsettle : (e.settled k t b).store = ({ (e.arrive k b).2.store with
        slots := e.store.slots.insert k
          (.resident ⟨e.memory.chunks.size, b.capacity, e.store.clock⟩)
        clock := e.store.clock + 1
        weightedSize := e.store.weightedSize + b.capacity }).publish t
          (.ok e.memory.chunks.size) := by
      simp only [Engine.settled, Store.settle, howns, if_true]
      rfl
    refine ⟨e.settled k t b, Engine.land_of_owns ho, ?_, ?_⟩
    · rw [hsettle]
      exact ShardedMap.get?_insert_self hp.shards_pos k _
    · rw [hsettle]
      rfl
  returns f h := by
    rw [FreeLists.release, if_neg (Nat.not_lt.2 h)]
    exact Bindings.get?_insert_self _ _ _

namespace Engine
variable {σ : Type} {e : Engine}

theorem loadBlock_of_serves {r : Reader} {position request : UInt64} {roundUp : Bool}
    {b : Block} {pool : Pool} (hrequest : r.loadSize? position roundUp = some request)
    (hserves : e.memory.Serves request r.bufferKind b pool) (x : σ) :
    loadBlock r r.physicalRead position roundUp (e, x) =
      match r.readChunk position b with
      | (.ok (), b) => (.ok b, { e with memory := { e.memory with pool } }, x)
      | (.error failure, b) => (.error failure,
          { e with memory := ({ e.memory with pool } : Memory).giveBack b }, x) := by
  simp only [loadBlock, Action.bind_eq, acquireFor, hrequest, hserves.acquire, readInto,
    Reader.physicalRead]
  rcases r.readChunk position b with ⟨_ | _, b⟩ <;> rfl

variable {r : Reader} {position : UInt64}

theorem exists_request_served (hpow : isPowerOfTwo r.chunkSize = true)
    (hstated : r.statedChunkSize = r.chunkSize) (hsize : r.chunkSize.toNat < 2 ^ 63)
    (htidy : e.memory.pool.free.Tidy) (hlimit : e.memory.pool.limit = none) (position : UInt64)
    (roundUp : Bool) :
    ∃ (request : UInt64) (b : Block) (pool : Pool),
      r.loadSize? position roundUp = some request ∧
      Asks roundUp (max 1 (r.chunkLength position)) request.toNat ∧ request ≤ r.chunkSize ∧
      e.memory.Serves request r.bufferKind b pool := by
  obtain ⟨request, hrequest, hasks, hmost⟩ :=
    Reader.exists_request (r := r) (by rwa [hstated]) position roundUp
  rw [hstated] at hasks hmost
  obtain ⟨k, -, hk⟩ := Reader.toNat_of_isPowerOfTwo hpow
  have hexponent : k < 63 := by
    rw [hk] at hsize
    exact (Nat.pow_lt_pow_iff_right (by decide)).1 hsize
  have hchunk : r.chunkSize.toNat ≤ 2 ^ 62 := by
    rw [hk]
    exact Nat.pow_le_pow_right (by decide) (by omega)
  have hle : request.toNat ≤ 2 ^ 62 := Nat.le_trans (UInt64.le_iff_toNat_le.1 hmost) hchunk
  have hroom : 2 ^ 62 ≤ Block.capacityLimit - pageSize := by decide
  obtain ⟨b, pool, hserves⟩ := Memory.exists_serves htidy hlimit r.bufferKind
    (Nat.le_trans (Nat.le_max_left _ _) hasks.le) (Nat.le_trans hle hroom)
  exact ⟨request, b, pool, hrequest, hasks, hmost, hserves⟩

/-- The size that a load asks for is the size that its read needs. Where the position is inside of
the length and can be read, the request is the length of the chunk, or the least power of two from
there on, and at most the chunk size; it is served, whatever the pool went through; and the block
that was given is the block that is loaded, of the capacity for the request, which is its weight and
the list it goes to. Past the length one byte is asked for, and the block goes back as it came. -/
theorem load_keeps_block {source : ByteSource} {chunkSize length : UInt64} {r₀ : Reader}
    (hreader : Reader.withLength? source chunkSize length = .ok r₀) (kind : BufferKind)
    (closed : Bool) (hsize : chunkSize.toNat < 2 ^ 63) (haligned : position % chunkSize = 0)
    (roundUp : Bool) (max : UInt64) (uses : List Custody.Use)
    (hfree : e.memory.pool.free = (Custody.run { free := { maxRetainedBytes := max } } uses).free)
    (hlimit : e.memory.pool.limit = none) (x : σ) :
    let r := { r₀ with bufferKind := kind, closed }
    let chunkLength := min (length.toNat - position.toNat) chunkSize.toNat
    (position < length → closed = false → Reader.Fills source position chunkLength →
      ∃ (request : UInt64) (b b' : Block) (pool : Pool),
        r.loadSize? position roundUp = some request ∧
        Asks roundUp chunkLength request.toNat ∧ request ≤ chunkSize ∧
        e.memory.Serves request kind b pool ∧
        loadBlock r r.physicalRead position roundUp (e, x) =
          (.ok b', { e with memory := { e.memory with pool } }, x) ∧
        b'.id = b.id ∧ b'.capacity = b.capacity ∧ b'.bytes.size = chunkLength ∧
        b'.Weighs b.capacity) ∧
    (length ≤ position →
      ∃ (b : Block) (pool : Pool),
        r.loadSize? position roundUp = some 1 ∧
        e.memory.Serves 1 kind b pool ∧
        loadBlock r r.physicalRead position roundUp (e, x) =
          (.error (.error (if closed then .readerClosed source.path
            else .positionOutOfBounds source.path position length)),
            { e with memory := ({ e.memory with pool } : Memory).giveBack b }, x) ∧
        (pool.release b).2.acquired = e.memory.pool.acquired + 1 ∧
        (pool.release b).2.released = e.memory.pool.released + 1 ∧
        (e.memory.pool.released ≤ e.memory.pool.acquired → (pool.release b).1 = true)) := by
  have htidy : e.memory.pool.free.Tidy := by
    rw [hfree]
    exact ((Custody.sound_new max).run uses).tidy
  have hpow : isPowerOfTwo chunkSize = true := by
    by_contra hnot
    rw [Reader.withLength?, if_neg hnot] at hreader
    cases hreader
  rw [Reader.withLength?, if_pos hpow] at hreader
  cases hreader
  intro r chunkLength
  obtain ⟨request, b, pool, hrequest, hasks, hmost, hserves⟩ :=
    exists_request_served (r := r) hpow rfl hsize htidy hlimit position roundUp
  have hload := loadBlock_of_serves hrequest hserves x
  constructor
  · intro hinside hopen hfills
    have hpos : 0 < r.chunkLength position := Reader.chunkLength_pos hpow hinside
    rw [Nat.max_eq_right hpos] at hasks
    have hroom : r.chunkLength position ≤ b.capacity := Nat.le_trans hasks.le hserves.suits.le
    obtain ⟨bytes, hbytes, hread⟩ := Reader.readChunk_of_fills haligned hopen hinside hfills hroom
    rw [hread] at hload
    exact ⟨request, b, { b with bytes }, pool, hrequest, hasks, hmost, hserves, hload, rfl, rfl,
      hbytes, Block.weighs_capacity { b with bytes }⟩
  · intro houtside
    have hnone : r.chunkLength position = 0 := by
      have hle := UInt64.le_iff_toNat_le.1 houtside
      change min (length.toNat - position.toNat) chunkSize.toNat = 0
      omega
    rw [hnone] at hasks
    obtain rfl : request = 1 := UInt64.toNat_inj.1 hasks.eq_one
    rw [Reader.readChunk_outside haligned houtside] at hload
    obtain ⟨hreleased, hacquired⟩ := Memory.released_giveBack { e.memory with pool } b
    refine ⟨b, pool, hrequest, hserves, hload, hacquired.trans hserves.acquired,
      hreleased.trans (congrArg (· + 1) hserves.released), fun hle ↦ ?_⟩
    have houts : pool.released < pool.acquired := by
      rw [hserves.acquired, hserves.released]
      exact Nat.lt_succ_of_le hle
    simp [Pool.release, houts]

/-- Seven bytes in chunks of four: the last chunk is asked for as four bytes and gets the page that
was used before. Past the end one byte is asked for. -/
theorem load_keeps_block_recycled :
    ∃ (r : Reader) (e : Engine) (b : Block) (pool pool' : Pool),
      Reader.withLength? (.ofMemory "seven" ⟨#[1, 2, 3, 4, 5, 6, 7]⟩) 4 7 =
        .ok { r with bufferKind := .standard } ∧ r.bufferKind = .aligned ∧
      e.memory.pool.free = (Custody.run { free := { maxRetainedBytes := 8192 } }
        [.acquire 9 .aligned, .write 0 ⟨#[9]⟩, .release 0]).free ∧
      loadBlock r r.physicalRead 4 true (e, ()) =
        (.ok b, { e with memory := { e.memory with pool } }, ()) ∧
      b.id = 0 ∧ b.capacity = 4096 ∧ b.bytes.size = 3 ∧ b.Weighs 4096 ∧
      loadBlock r r.physicalRead 8 true (e, ()) =
        (.error (.error (.positionOutOfBounds "seven" 8 7)),
          { e with memory := { e.memory with pool := pool' } }, ()) ∧
      pool'.acquired = 1 ∧ pool'.released = 1 := by
  let source := ByteSource.ofMemory "seven" ⟨#[1, 2, 3, 4, 5, 6, 7]⟩
  let uses : List Custody.Use := [.acquire 9 .aligned, .write 0 ⟨#[9]⟩, .release 0]
  let used := Custody.run { free := { maxRetainedBytes := 8192 } } uses
  let e : Engine :=
    { store := { settings := { capacity := 4096 }, slots := .empty ChunkId.hash 1 }
      memory := { pool := { free := used.free } } }
  have hfree : e.memory.pool.free = used.free := by dsimp only [e]
  have hreader : Reader.withLength? source 4 7 = .ok _ := if_pos (by decide)
  have hfills : Reader.Fills source 4 3 :=
    Reader.fills_of_delivers (ByteSource.delivers_ofMemory _ _) (fun _ _ _ _ he ↦ nomatch he)
      (by decide) (by decide)
  have hload (position : UInt64) (haligned : position % 4 = 0) :=
    load_keeps_block hreader .aligned false (by decide) haligned true 8192 uses
      hfree rfl ()
  obtain ⟨request, b, b', pool, hrequest, -, -, hserves, hlast, hid, hcapacity, hsize, hweighs⟩ :=
    (hload 4 (by decide)).1 (by decide) rfl hfills
  obtain ⟨b₁, pool₁, -, -, hpast, hacquired, hreleased, -⟩ := (hload 8 (by decide)).2 (by decide)
  obtain rfl : request = 4 := Option.some.inj (hrequest.symm.trans (by decide))
  have hpage : (e.memory.acquire 4 .aligned).1.toOption.map (fun b ↦ (b.id, b.capacity)) =
      some (0, 4096) := by decide
  rw [hserves.acquire] at hpage
  obtain ⟨hzero, hfull⟩ := Prod.mk.inj (Option.some.inj hpage)
  rw [hfull] at hweighs
  exact ⟨_, e, b', pool, (pool₁.release b₁).2, hreader, rfl, hfree, hlast, hid.trans hzero,
    hcapacity.trans hfull, hsize, hweighs, hpast, hacquired, hreleased⟩

end Engine
end ReadCache
