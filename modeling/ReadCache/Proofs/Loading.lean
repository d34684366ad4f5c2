import ReadCache.Proofs.Lifetimes
import ReadCache.Proofs.Pool
import ReadCache.Proofs.ShortReads
import ReadCache.Proofs.WholeCalls

namespace ReadCache

theorem BufferKind.le_capacityFor? {kind : BufferKind} {size capacity : Nat}
    (h : kind.capacityFor? size = some capacity) : size ≤ capacity := by
  cases kind with
  | standard =>
    cases h
    exact Nat.le_refl _
  | aligned =>
    simp only [capacityFor?] at h
    split at h <;> cases h
    simp only [pageSize]
    omega

/-- A source that has all of these bytes: a read inside of them succeeds and gives some. -/
structure ByteSource.Complete (s : ByteSource) (data : ByteArray) : Prop where
  serves : s.Serves data
  gives : ∀ position length, position.toNat + length ≤ data.size → length ≠ 0 →
    ∃ piece, s.readAt position length = .ok piece ∧ piece.size ≠ 0

theorem ByteSource.complete_ofMemory (path : String) (data : ByteArray) :
    (ofMemory path data).Complete data where
  serves := serves_ofMemory path data
  gives position length hle hne := by
    refine ⟨_, rfl, ?_⟩
    simp only [slice, ByteArray.size_extract]
    omega

namespace Reader
variable {r : Reader} {position : UInt64} {roundUp : Bool} {data : ByteArray}

/-- A load of the chunk there succeeds, with any block of the capacity that it asks for, and the
buffer of the chunk then has the capacity `weight`. -/
def Reads (r : Reader) (position : UInt64) (roundUp : Bool) (weight : Nat) : Prop :=
  ∃ size capacity, r.loadSize? position roundUp = some size ∧
    r.bufferKind.capacityFor? size.toNat = some capacity ∧ capacity < Block.capacityLimit ∧
    ∀ b, b.capacity = capacity →
      ∃ b', r.readChunk position b = (.ok (), b') ∧ b'.capacity = weight

def countedRead (r : Reader) : PhysicalRead (Engine × Nat) :=
  fun position b (e, n) ↦ (r.readChunk position b, e, n + 1)

theorem le_loadSize? {size : UInt64} (h : r.loadSize? position roundUp = some size) :
    max 1 (min (r.length.toNat - position.toNat) r.statedChunkSize.toNat) ≤ size.toNat := by
  have hstated := r.statedChunkSize.toNat_lt
  simp only [loadSize?] at h
  split at h
  · obtain ⟨n, hn, rfl⟩ := Option.map_eq_some_iff.1 h
    simp only [powerOfTwoFrom?] at hn
    split at hn <;> cases hn
    rw [UInt64.toNat_ofNat_of_lt' ‹_›]
    exact le_powerOfTwoFrom _
  · cases h
    rw [UInt64.toNat_ofNat_of_lt' (by simp only [UInt64.size]; omega)]

theorem fills_of_complete {source : ByteSource} (hs : source.Complete data) {length : Nat}
    (hword : position.toNat + length < UInt64.size) (hreach : position.toNat + length ≤ data.size) :
    Fills source position length := by
  intro filled _ hless
  have hat : (position + .ofNat filled).toNat = position.toNat + filled :=
    toNat_add_filled (by omega)
  obtain ⟨piece, hread, hsome⟩ :=
    hs.gives (position + .ofNat filled) (length - filled) (by omega) (by omega)
  obtain ⟨hpiece, -⟩ := hs.serves _ _ _ hread
  exact ⟨piece, hread, hsome, hpiece⟩

theorem reads_of_complete (hs : r.source.Complete data) (hlength : r.length.toNat = data.size)
    (hopen : r.closed = false) (hstated : r.statedChunkSize = r.chunkSize)
    (hin : position < r.length) (haligned : position % r.chunkSize = 0) {size : UInt64}
    (hsize : r.loadSize? position roundUp = some size) {capacity : Nat}
    (hcapacity : r.bufferKind.capacityFor? size.toNat = some capacity)
    (hlimit : capacity < Block.capacityLimit) : r.Reads position roundUp capacity := by
  refine ⟨size, capacity, hsize, hcapacity, hlimit, fun b hb ↦ ?_⟩
  have hlt : position.toNat < r.length.toNat := UInt64.lt_iff_toNat_lt.1 hin
  have hfits : r.chunkLength position ≤ b.capacity := by
    have hasked := le_loadSize? hsize
    have hgiven := BufferKind.le_capacityFor? hcapacity
    rw [hstated] at hasked
    simp only [chunkLength]
    omega
  have hshort : r.chunkLength position ≤ r.length.toNat - position.toNat := Nat.min_le_left _ _
  have hinside : position.toNat + r.chunkLength position ≤ data.size := by omega
  have hword : r.length.toNat < UInt64.size := r.length.toNat_lt
  have hfills := fills_of_complete hs (by omega) hinside
  obtain ⟨bytes, -, hread⟩ := readChunk_of_fills haligned hopen hin hfills hfits
  exact ⟨{ b with bytes }, hread, hb⟩

end Reader

namespace Engine
variable {e : Engine} {k : ChunkId} {r : Reader} {roundUp : Bool} {w : Nat}

theorem loadBlock_reads (hp : e.memory.pool.Filed) (hr : r.Reads k.position roundUp w) (n : Nat) :
    ∃ b pool, loadBlock r r.countedRead k.position roundUp (e, n) =
        (.ok b, { e with memory := { e.memory with pool } }, n + 1) ∧
      b.capacity = w ∧ pool.Filed := by
  obtain ⟨size, capacity, hsize, hcapacity, hlimit, hread⟩ := hr
  have hne : size ≠ 0 := by
    rintro rfl
    have hle := Reader.le_loadSize? hsize
    rw [UInt64.toNat_zero] at hle
    omega
  obtain ⟨b, hb, hbc⟩ := hp.acquire_ok hne hcapacity hlimit
  obtain ⟨b', hb', hw⟩ := hread b hbc
  refine ⟨b', (e.memory.pool.acquire size r.bufferKind).2, ?_, hw, hp.acquire _ _⟩
  simp only [loadBlock, Action.bind_eq, acquireFor, hsize, Memory.acquire, hb, readInto,
    Reader.countedRead, hb']

def place (e : Engine) (k : ChunkId) (b : Block) (pool : Pool) : Engine where
  store :=
    { e.store with
      slots := (e.store.slots.insert k (.loading e.store.results.size)).insert k
        (.resident ⟨e.memory.chunks.size, b.capacity, e.store.clock⟩)
      weightedSize := e.store.weightedSize + b.capacity
      clock := e.store.clock + 1
      counters := (e.store.counters.record .miss).record (.loaded 0)
      results := (e.store.results.push none).setIfInBounds e.store.results.size
        (some (.ok e.memory.chunks.size)) }
  memory := (({ e.memory with pool } : Memory).adopt b k.position).2

theorem request_free (hk : e.store.slots.get? k = none) :
    e.request k = (.load e.store.results.size, e.onStore fun s ↦
      { s with
        slots := s.slots.insert k (.loading s.results.size)
        results := s.results.push none
        counters := s.counters.record .miss }) := by
  rcases Store.find?_cases e.store k with ⟨r, hr, -⟩ | ⟨t, ht, -⟩ | ⟨-, he⟩
  · rw [hk] at hr
    cases hr
  · rw [hk] at ht
    cases ht
  · simp only [request, he, Store.claim]
    rfl

theorem request_resident {r : Resident} (hk : e.store.slots.get? k = some (.resident r)) :
    e.request k = (.hit r.chunk, e.onStore fun s ↦ (s.touch k r).record .hit) := by
  rcases Store.find?_cases e.store k with ⟨r', hr, he⟩ | ⟨t, ht, -⟩ | ⟨hn, -⟩
  · rw [hk] at hr
    cases hr
    simp only [request, he]
    rfl
  · rw [hk] at ht
    cases ht
  · rw [hk] at hn
    cases hn

theorem request_loading {t : Ticket} (hk : e.store.slots.get? k = some (.loading t)) :
    e.request k = (.wait t, e.onStore fun s ↦ s.record .hit) := by
  rcases Store.find?_cases e.store k with ⟨r, hr, -⟩ | ⟨t', ht, he⟩ | ⟨hn, -⟩
  · rw [hk] at hr
    cases hr
  · rw [hk] at ht
    cases ht
    simp only [request, he]
    rfl
  · rw [hk] at hn
    cases hn

theorem getOrLoadWith_free {σ : Type} (hp : e.store.slots.Proper) (hk : e.store.slots.get? k = none)
    {load : Action (Engine × σ) Block} {b : Block} {pool : Pool} {s s' : σ}
    (hl : load ((e.request k).2, s) =
      (.ok b, { (e.request k).2 with memory := { e.memory with pool } }, s')) :
    getOrLoadWith k load (e, s) =
      (.ok e.memory.chunks.size, (e.place k b pool).evictIfNeeded, s') := by
  have howned : ((e.store.slots.insert k (.loading e.store.results.size)).get? k =
      some (.loading e.store.results.size)) := ShardedMap.get?_insert_self hp.shards_pos _ _
  unfold getOrLoadWith
  rw [request_free hk] at hl
  dsimp only at hl ⊢
  rw [request_free hk]
  dsimp only
  rw [hl]
  simp only [finish, land, arrive, Store.settle, Store.owns, onStore, Store.record, howned,
    decide_true, if_true]
  rfl

theorem residents_place (hp : e.store.slots.Proper) (hk : e.store.slots.get? k = none) (b : Block)
    (pool : Pool) : (e.place k b pool).store.slots.Proper ∧
      (e.place k b pool).store.residents.Perm
        ((k, ⟨e.memory.chunks.size, b.capacity, e.store.clock⟩) :: e.store.residents) := by
  have hp' := hp.insert k (.loading e.store.results.size)
  refine ⟨hp'.insert _ _, ?_⟩
  obtain ⟨a, l, hal, hload⟩ := hp.insert_free hk
  obtain ⟨a', l', hal', hinsert, -⟩ := hp'.split_of_get?_some
    (ShardedMap.get?_insert_self hp.shards_pos k (Slot.loading e.store.results.size))
  have hsame : Store.residentsOf (a' ++ l') = e.store.residents := by
    have h := congrArg Store.residentsOf (hal'.symm.trans (hload _))
    simp only [Store.residentsOf_append, Store.residentsOf_loading] at h
    rw [Store.residentsOf_append, h, Store.residents, hal, Store.residentsOf_append]
  have hnew : (e.place k b pool).store.residents =
      Store.residentsOf (a' ++ (k, .resident ⟨e.memory.chunks.size, b.capacity, e.store.clock⟩) ::
        l') := congrArg Store.residentsOf (hinsert _)
  rw [hnew, ← hsame]
  simp only [Store.residentsOf_append, Store.residentsOf_resident]
  exact List.perm_middle

/-- No load is under way, the weight is that of the residents, each of which the table keeps, and no
stamp is ahead of the clock. -/
structure Quiet (e : Engine) : Prop where
  coherent : e.store.Coherent
  kept : e.Kept
  stamps : ∀ v ∈ e.store.residents, v.2.lastAccess ≤ e.store.clock
  still : ∀ k t, e.store.slots.get? k ≠ some (.loading t)
  filed : e.memory.pool.Filed

def Rested (e : Engine) : Prop := ∀ v ∈ e.store.residents, v.2.lastAccess < e.store.clock

theorem Quiet.place (h : e.Quiet) (hk : e.store.slots.get? k = none) (b : Block) {pool : Pool}
    (hpool : pool.Filed) : (e.place k b pool).Quiet ∧ (e.place k b pool).Rested := by
  obtain ⟨hproper, hperm⟩ := residents_place h.coherent.proper hk b pool
  have hstamp : ∀ v ∈ (e.place k b pool).store.residents, v.2.lastAccess ≤ e.store.clock := by
    intro v hv
    rcases List.mem_cons.1 (hperm.mem_iff.1 hv) with rfl | hv
    · exact Nat.le_refl _
    · exact h.stamps v hv
  refine ⟨⟨⟨hproper, ?weight⟩, ⟨?own, ?known⟩, ?stamps, ?still, hpool⟩, ?rested⟩
  case weight =>
    have hw : (e.place k b pool).store.weightedSize = e.store.weightedSize + b.capacity := rfl
    rw [hw, weightOf_perm hperm, weightOf_cons, h.coherent.weight, Nat.add_comm]
  case own =>
    rw [(hperm.map _).nodup_iff, List.map_cons, List.nodup_cons]
    refine ⟨fun hm ↦ ?_, h.kept.own⟩
    obtain ⟨v, hv, he⟩ := List.mem_map.1 hm
    exact absurd (h.kept.known v hv) (by rw [he]; exact Nat.lt_irrefl _)
  case known =>
    intro v hv
    have hsize : (e.place k b pool).memory.chunks.size = e.memory.chunks.size + 1 :=
      Array.size_push _
    rw [hsize]
    rcases List.mem_cons.1 (hperm.mem_iff.1 hv) with rfl | hv
    · exact Nat.lt_succ_self _
    · exact Nat.lt_succ_of_lt (h.kept.known v hv)
  case stamps => exact fun v hv ↦ Nat.le_succ_of_le (hstamp v hv)
  case still =>
    intro k' t ht
    have hmid : 0 < (e.store.slots.insert k (.loading e.store.results.size)).shardCount := by
      rw [ShardedMap.shardCount_insert]
      exact h.coherent.proper.shards_pos
    by_cases he : k = k'
    · subst he
      rw [Engine.place, ShardedMap.get?_insert_self hmid] at ht
      cases ht
    · rw [Engine.place, ShardedMap.get?_insert_ne _ _ he, ShardedMap.get?_insert_ne _ _ he] at ht
      exact h.still k' t ht
  case rested => exact fun v hv ↦ Nat.lt_succ_of_le (hstamp v hv)

theorem Quiet.without (h : e.Quiet) {victims rest : List (ChunkId × Resident)}
    (hp : (victims ++ rest).Perm e.store.residents) : (e.without victims).Quiet := by
  obtain ⟨hcoherent, hrest⟩ := residents_without h.coherent hp
  have hevicts := evicts_without h.coherent h.kept hp
  have hbefore {v : ChunkId × Resident} (hv : v ∈ (e.without victims).store.residents) :
      v ∈ e.store.residents := hp.mem_iff.1 (List.mem_append_right _ (hrest.mem_iff.2 hv))
  have hown := (hp.map (·.2.chunk)).nodup_iff.2 h.kept.own
  rw [List.map_append, List.nodup_append] at hown
  refine ⟨hcoherent, ⟨?own, ?known⟩, fun v hv ↦ h.stamps v (hbefore hv), ?still, ?filed⟩
  case own => exact (hrest.map _).nodup_iff.1 hown.2.1
  case known =>
    intro v hv
    have hsize : (e.without victims).memory.chunks.size = e.memory.chunks.size :=
      size_unreferenceAll e.memory victims
    rw [hsize]
    exact h.kept.known v (hbefore hv)
  case still =>
    intro k t ht
    rw [hevicts.slots] at ht
    split at ht
    · cases ht
    · exact h.still k t ht
  case filed =>
    have hall (m : Memory) (hm : m.pool.Filed) :
        (victims.foldl (fun m v ↦ m.unreference v.2.chunk) m).pool.Filed := by
      clear hevicts hrest hp hown hbefore hcoherent
      induction victims generalizing m with
      | nil => exact hm
      | cons v victims ih => exact ih _ (Memory.filed_unreference hm _)
    exact hall e.memory h.filed

theorem eq_nil_of_youngest {before after : List (ChunkId × Resident)} {v : ChunkId × Resident}
    (hage : ByAge (before ++ v :: after)) (hnodup : (before ++ v :: after).Nodup)
    (hyoung : ∀ x ∈ before ++ v :: after, x ≠ v → x.2.lastAccess < v.2.lastAccess) : after = [] := by
  refine List.eq_nil_iff_forall_not_mem.2 fun x hx ↦ ?_
  have hle := (List.pairwise_cons.1 (List.pairwise_append.1 hage).2.1).1 x hx
  have hne : x ≠ v := by
    rintro rfl
    exact (List.nodup_cons.1 (List.nodup_append.1 hnodup).2.1).1 hx
  have hlt := hyoung x (List.mem_append_right _ (List.mem_cons_of_mem _ hx)) hne
  omega

/-- What a pass leaves of a resident: itself with its chunk as it was, or nothing, and then the
weight is down at the target. The youngest goes only with all the others, and only if it is above
the target by itself. -/
theorem evictIfNeeded_cases (h : e.Quiet) (hb : e.store.batchSize ≠ 0) {v : ChunkId × Resident}
    (hv : v ∈ e.store.residents) :
    (v ∈ e.evictIfNeeded.store.residents ∧
      e.evictIfNeeded.memory.chunk? v.2.chunk = e.memory.chunk? v.2.chunk) ∨
    (e.evictIfNeeded.store.slots.get? v.1 = none ∧
      e.evictIfNeeded.memory.chunk? v.2.chunk =
        (e.memory.chunk? v.2.chunk).map (·.unreference.2) ∧
      e.store.capacity.toNat < e.store.weightedSize ∧
      e.evictIfNeeded.store.weightedSize ≤ e.store.targetWeight ∧
      ((∀ x ∈ e.store.residents, x ≠ v → x.2.lastAccess < v.2.lastAccess) →
        e.evictIfNeeded.store.residents = [] ∧ e.store.targetWeight < v.2.weight)) := by
  by_cases ho : e.store.weightedSize ≤ e.store.capacity.toNat
  · rw [evictIfNeeded_of_le ho]
    exact .inl ⟨hv, rfl⟩
  obtain ⟨order, hperm, hage, he⟩ := evictIfNeeded_eq h.coherent hb (Nat.lt_of_not_le ho)
  have henough : e.store.weightedSize -
      weightOf (shedding e.store.targetWeight e.store.weightedSize order) ≤ e.store.targetWeight :=
    shedding_residents_enough h.coherent hperm
  have hsplit := shedding_append_drop e.store.targetWeight e.store.weightedSize order
  have hmin (n : Nat) := shedding_min e.store.targetWeight e.store.weightedSize order (n := n)
  rw [he]
  generalize shedding e.store.targetWeight e.store.weightedSize order = victims at *
  generalize order.drop victims.length = rest at hsplit
  subst hsplit
  obtain ⟨hcoherent, hrest⟩ := residents_without h.coherent hperm
  have hevicts := evicts_without h.coherent h.kept hperm
  have hnodup : (victims ++ rest).Nodup := hperm.nodup_iff.2 h.kept.own.of_map
  rcases List.mem_append.1 (hperm.mem_iff.2 hv) with hvictim | hleft
  · right
    refine ⟨?_, hevicts.victim v hvictim, Nat.lt_of_not_le ho, henough, fun hyoung ↦ ?_⟩
    · rw [hevicts.slots, if_pos (List.mem_map_of_mem hvictim)]
    -- Nothing comes after the youngest, so with it all the others are victims.
    obtain ⟨before, after, rfl⟩ := List.append_of_mem hvictim
    have hnone : after ++ rest = [] := by
      rw [List.append_assoc, List.cons_append] at hage hnodup hperm
      exact eq_nil_of_youngest hage hnodup fun x hx hne ↦ hyoung x (hperm.mem_iff.1 hx) hne
    obtain ⟨rfl, rfl⟩ := List.append_eq_nil_iff.1 hnone
    refine ⟨hrest.symm.eq_nil, ?_⟩
    -- Without it the victims are not enough: it is above the target by itself.
    have hlast := hmin before.length (by simp)
    have htotal := weightOf_perm hperm
    rw [List.append_nil, List.take_left] at hlast
    simp only [List.append_nil, weightOf_append, weightOf_cons, weightOf_nil,
      Nat.add_zero] at htotal
    rw [h.coherent.weight, ← htotal] at hlast
    omega
  · left
    refine ⟨hrest.mem_iff.1 hleft, hevicts.others _ fun x hx he ↦ ?_⟩
    have hown := (hperm.map (·.2.chunk)).nodup_iff.2 h.kept.own
    rw [List.map_append, List.nodup_append] at hown
    exact hown.2.2 _ (List.mem_map_of_mem hx) _ (List.mem_map_of_mem hleft) he

theorem Quiet.evictIfNeeded (h : e.Quiet) (hb : e.store.batchSize ≠ 0) :
    e.evictIfNeeded.Quiet ∧ e.evictIfNeeded.store.clock = e.store.clock ∧
      e.evictIfNeeded.store.settings = e.store.settings ∧
      e.evictIfNeeded.store.residents ⊆ e.store.residents := by
  by_cases ho : e.store.weightedSize ≤ e.store.capacity.toNat
  · rw [evictIfNeeded_of_le ho]
    exact ⟨h, rfl, rfl, List.Subset.refl _⟩
  · obtain ⟨order, hperm, -, he⟩ := evictIfNeeded_eq h.coherent hb (Nat.lt_of_not_le ho)
    have hsplit := shedding_append_drop e.store.targetWeight e.store.weightedSize order
    rw [he]
    rw [← hsplit] at hperm
    refine ⟨h.without hperm, rfl, rfl, fun v hv ↦ ?_⟩
    have hrest := (residents_without h.coherent hperm).2
    exact hperm.mem_iff.1 (List.mem_append_right _ (hrest.mem_iff.2 hv))

end Engine
end ReadCache
