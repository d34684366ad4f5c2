import ReadCache.Proofs.FailedLoads
import ReadCache.Proofs.PlainMemory

namespace ReadCache

namespace Store

/-- Nothing differs but the shards and the order in which equals come up for eviction. -/
structure Twin (s s' : Store) : Prop where
  slots : ∀ k, s.slots.get? k = s'.slots.get? k
  weightedSize : s.weightedSize = s'.weightedSize
  clock : s.clock = s'.clock
  counters : s.counters = s'.counters
  results : s.results = s'.results
  settings : { s.settings with shardCount := 0, ties := .asListed } =
    { s'.settings with shardCount := 0, ties := .asListed }

variable {s s' : Store} {k : ChunkId} {t : Ticket}

theorem nodup_residents (h : s.slots.Proper) : s.residents.Nodup := (nodup_keys_residents h).of_map

theorem Twin.residents (h : s.Twin s') (hp : s.slots.Proper) (hp' : s'.slots.Proper) :
    s.residents.Perm s'.residents := by
  refine (List.perm_ext_iff_of_nodup (nodup_residents hp) (nodup_residents hp')).2 fun v ↦ ?_
  obtain ⟨k, r⟩ := v
  rw [mem_residents hp, mem_residents hp', h.slots]

theorem Twin.residentsOn (h : s.Twin s') (hp : s.slots.Proper) (hp' : s'.slots.Proper)
    (keys : ChunkId → Bool) : (s.residentsOn keys).Perm (s'.residentsOn keys) :=
  (h.residents hp hp').filter _

theorem Twin.fixed (h : s.Twin s') : s.capacity = s'.capacity ∧ s.targetWeight = s'.targetWeight ∧
    s.batchSize = s'.batchSize ∧ s.settings.roundUp = s'.settings.roundUp := by
  obtain ⟨hcapacity, -, hround, heviction, -⟩ := Settings.mk.inj h.settings
  simp only [capacity, targetWeight, batchSize, hcapacity, hround, heviction, and_self]

theorem Twin.record (h : s.Twin s') (event : Event) : (s.record event).Twin (s'.record event) :=
  { h with counters := congrArg (·.record event) h.counters }

theorem Twin.publish (h : s.Twin s') (t : Ticket) (result : Except Error ChunkRef) :
    (s.publish t result).Twin (s'.publish t result) :=
  { h with results := congrArg (·.setIfInBounds t (some result)) h.results }

theorem Twin.owns (h : s.Twin s') (k : ChunkId) (t : Ticket) : s.owns k t = s'.owns k t := by
  rw [Store.owns, Store.owns, h.slots]

theorem Twin.insert (h : s.Twin s') (hp : s.slots.Proper) (hp' : s'.slots.Proper) (k : ChunkId)
    (slot : Slot) : Twin { s with slots := s.slots.insert k slot }
      { s' with slots := s'.slots.insert k slot } where
  slots k' := by
    by_cases he : k = k'
    · subst he
      rw [ShardedMap.get?_insert_self hp.shards_pos, ShardedMap.get?_insert_self hp'.shards_pos]
    · rw [ShardedMap.get?_insert_ne _ _ he, ShardedMap.get?_insert_ne _ _ he, h.slots]
  weightedSize := h.weightedSize
  clock := h.clock
  counters := h.counters
  results := h.results
  settings := h.settings

theorem Twin.touch (h : s.Twin s') (hp : s.slots.Proper) (hp' : s'.slots.Proper) (k : ChunkId)
    (r : Resident) : (s.touch k r).Twin (s'.touch k r) := by
  unfold Store.touch
  rw [← h.clock]
  split
  · exact { h.insert hp hp' k (.resident { r with lastAccess := s.clock }) with clock := rfl }
  · exact h

theorem Twin.clearLoad (h : s.Twin s') (hp : s.slots.Proper) (hp' : s'.slots.Proper) (k : ChunkId)
    (t : Ticket) : (s.clearLoad k t).Twin (s'.clearLoad k t) := by
  unfold Store.clearLoad
  rw [← h.owns]
  split
  · refine { h with slots := fun k' ↦ ?_ }
    by_cases he : k = k'
    · subst he
      rw [ShardedMap.get?_erase_self hp.shards_pos, ShardedMap.get?_erase_self hp'.shards_pos]
    · rw [ShardedMap.get?_erase_ne _ he, ShardedMap.get?_erase_ne _ he, h.slots]
  · exact h

theorem Twin.settle (h : s.Twin s') (hp : s.slots.Proper) (hp' : s'.slots.Proper) (k : ChunkId)
    (t : Ticket) (c : ChunkRef) (w : Nat) :
    (s.settle k t c w).1 = (s'.settle k t c w).1 ∧
      (s.settle k t c w).2.Twin (s'.settle k t c w).2 := by
  unfold Store.settle
  rw [← h.owns, ← h.clock]
  split
  · have hslots := h.insert hp hp' k (.resident ⟨c, w, s.clock⟩)
    exact ⟨rfl, { hslots with clock := rfl, weightedSize := by rw [h.weightedSize] }⟩
  · exact ⟨rfl, h⟩

theorem Twin.purge (h : s.Twin s') (hp : s.slots.Proper) (hp' : s'.slots.Proper)
    (keys : ChunkId → Bool) : (s.purge keys).Twin (s'.purge keys) := by
  refine { h with slots := fun k ↦ ?_, weightedSize := ?_ }
  · rw [Store.purge, ShardedMap.get?_keep, Store.purge, ShardedMap.get?_keep, h.slots]
  · rw [Store.purge, Store.purge, h.weightedSize, weightOf_perm (h.residentsOn hp hp' keys)]

theorem coherent_of_entries (h : s.Coherent) (hp : s'.slots.Proper)
    (he : s'.entries.Perm s.entries) (hw : s'.weightedSize = s.weightedSize) : s'.Coherent where
  proper := hp
  weight := by
    rw [hw, h.weight, ← residentWeight_eq, ← residentWeight_eq, residentWeight, residentWeight,
      (he.map _).sum_nat]

theorem Coherent.clearLoad (h : s.Coherent) (k : ChunkId) (t : Ticket) :
    (s.clearLoad k t).Coherent :=
  coherent_of_entries h (proper_clearLoad h.proper t) (entries_clearLoad h.proper t ▸ .refl _)
    (alike_clearLoad s k t).weightedSize

theorem Coherent.settle (h : s.Coherent) (k : ChunkId) (t : Ticket) (c : ChunkRef) (w : Nat) :
    (s.settle k t c w).2.Coherent := by
  rcases settle_cases s k t c w with ⟨ho, -⟩ | ⟨-, he⟩
  · refine ⟨proper_settle h.proper t c w, ?_⟩
    have hentries := ((entries_settle (c := c) (w := w) h.proper ho).map Entry.weight).sum_nat
    have hweight : (s.settle k t c w).2.weightedSize = s.weightedSize + w := by
      simp [Store.settle, ho]
    rw [hweight, h.weight, ← residentWeight_eq, ← residentWeight_eq, residentWeight, residentWeight,
      hentries, List.map_cons, List.sum_cons, Nat.add_comm]
  · rw [he]
    exact h

theorem Coherent.purge (h : s.Coherent) (keys : ChunkId → Bool) : (s.purge keys).Coherent where
  proper := h.proper.keep fun k ↦ !keys k
  weight := by
    have hsplit := weightOf_perm (residents_filter_split s.slots.toList keys)
    have hrest : (s.purge keys).residents =
        residentsOf (s.slots.toList.filter fun b ↦ !keys b.1) := by
      rw [Store.residents, Store.purge, ShardedMap.toList_keep]
    have hgone : s.residentsOn keys = residentsOf (s.slots.toList.filter fun b ↦ keys b.1) :=
      (residentsOf_filter _ keys).symm
    have hweight :
        (s.purge keys).weightedSize = s.weightedSize - weightOf (s.residentsOn keys) := rfl
    rw [weightOf_append, ← hrest, ← hgone] at hsplit
    rw [hweight, h.weight, Store.residents, hsplit]
    omega

end Store

namespace Engine

/-- The weight is that of the residents, and the blocks that wait are in order. -/
structure Sound (e : Engine) : Prop where
  coherent : e.store.Coherent
  stocked : e.memory.Stocked

/-- The engines differ in the number of their shards, in their hash and in which block lies where,
but in nothing that can be told from outside. -/
structure Twin (e e' : Engine) : Prop where
  store : e.store.Twin e'.store
  memory : e.memory.plain = e'.memory.plain

/-- Among equals any order will do: of the chunks that a pass leaves none is as old as one that it
takes out. -/
def Untied (e : Engine) : Prop :=
  e.store.capacity.toNat < e.store.weightedSize →
  ∀ order, order.Perm e.store.residents → ByAge order →
    let victims := shedding e.store.targetWeight e.store.weightedSize order
    ∀ v ∈ victims, ∀ w ∈ order.drop victims.length, v.2.lastAccess ≠ w.2.lastAccess

variable {e e' : Engine} {k : ChunkId} {t : Ticket}

theorem untied_of_le (h : e.store.weightedSize ≤ e.store.capacity.toNat) : e.Untied :=
  fun hover ↦ absurd hover (Nat.not_lt.2 h)

theorem untied_of_nodup (h : (e.store.residents.map (·.2.lastAccess)).Nodup) : e.Untied := by
  intro _ order hperm _ victims v hv w hw
  have hnodup := (hperm.map (·.2.lastAccess)).nodup_iff.2 h
  have hsplit : victims ++ order.drop victims.length = order := shedding_append_drop _ _ order
  rw [← hsplit, List.map_append, List.nodup_append] at hnodup
  exact hnodup.2.2 _ (List.mem_map_of_mem hv) _ (List.mem_map_of_mem hw)

section
variable {target weight : Nat} {order order' victims rest : List (ChunkId × Resident)}

/-- All of these were used before all of those. -/
def Older (victims rest : List (ChunkId × Resident)) : Prop :=
  ∀ v ∈ victims, ∀ w ∈ rest, v.2.lastAccess < w.2.lastAccess

theorem older_of_byAge (hage : ByAge (victims ++ rest))
    (hne : ∀ v ∈ victims, ∀ w ∈ rest, v.2.lastAccess ≠ w.2.lastAccess) : Older victims rest := by
  intro v hv w hw
  exact Nat.lt_of_le_of_ne ((List.pairwise_append.1 hage).2.2 v hv w hw) (hne v hv w hw)

theorem Older.perm_take (h : Older victims rest) (hnodup : order.Nodup) (hage : ByAge order)
    (hsplit : (victims ++ rest).Perm order) : (order.take victims.length).Perm victims := by
  have hlength : (order.take victims.length).length = victims.length := by
    have htotal := hsplit.length_eq
    rw [List.length_append] at htotal
    rw [List.length_take]
    omega
  have hvictims : victims.Nodup := (List.nodup_append.1 (hsplit.nodup_iff.2 hnodup)).1
  have hfirst : (order.take victims.length).Nodup := hnodup.sublist (List.take_sublist _ _)
  refine (hfirst.subperm fun p hp ↦ ?_).perm_of_length_le (Nat.le_of_eq hlength.symm)
  -- A stranger among the first would stand before a victim that is not, though it is younger.
  by_contra hnot
  obtain ⟨v, hv, hlate⟩ : ∃ v ∈ victims, v ∉ order.take victims.length := by
    by_contra hall
    push Not at hall
    have hsame := (hvictims.subperm hall).perm_of_length_le (Nat.le_of_eq hlength)
    exact hnot (hsame.mem_iff.2 hp)
  have hdrop : v ∈ order.drop victims.length := by
    have hmem : v ∈ order := hsplit.mem_iff.1 (List.mem_append_left _ hv)
    rw [← List.take_append_drop victims.length order] at hmem
    exact (List.mem_append.1 hmem).resolve_left hlate
  have hrest : p ∈ rest :=
    (List.mem_append.1 (hsplit.mem_iff.2 (List.mem_of_mem_take hp))).resolve_left hnot
  rw [← List.take_append_drop victims.length order] at hage
  have hle := (List.pairwise_append.1 hage).2.2 p hp v hdrop
  have hlt := h v hv p hrest
  omega

theorem Older.perm_shedding (h : Older victims rest) (hnodup : order.Nodup) (hage : ByAge order)
    (hsplit : (victims ++ rest).Perm order) (henough : weight - weightOf victims ≤ target)
    (hsub : victims ⊆ shedding target weight order) :
    victims.Perm (shedding target weight order) := by
  have hvictims : victims.Nodup := (List.nodup_append.1 (hsplit.nodup_iff.2 hnodup)).1
  refine (hvictims.subperm hsub).perm_of_length_le (Nat.le_of_not_lt fun hless ↦ ?_)
  have hmin := shedding_min target weight order hless
  rw [weightOf_perm (h.perm_take hnodup hage hsplit)] at hmin
  omega

theorem shedding_perm (hnodup : order.Nodup) (hperm : order'.Perm order) (hage : ByAge order)
    (hage' : ByAge order')
    (holder : Older (shedding target weight order)
      (order.drop (shedding target weight order).length))
    (holder' : Older (shedding target weight order')
      (order'.drop (shedding target weight order').length))
    (henough : weight - weightOf (shedding target weight order) ≤ target)
    (henough' : weight - weightOf (shedding target weight order') ≤ target) :
    (shedding target weight order).Perm (shedding target weight order') := by
  have hsplit := shedding_append_drop target weight order
  have hsplit' := shedding_append_drop target weight order'
  -- Of two sets of the oldest, one is part of the other.
  have hsub : shedding target weight order' ⊆ shedding target weight order ∨
      shedding target weight order ⊆ shedding target weight order' := by
    by_contra hneither
    push Not at hneither
    simp only [List.subset_def, not_forall] at hneither
    obtain ⟨⟨w, hw, hwn⟩, v, hv, hvn⟩ := hneither
    have hw' : w ∈ order := hperm.mem_iff.1 (hsplit' ▸ List.mem_append_left _ hw)
    have hv' : v ∈ order' := hperm.mem_iff.2 (hsplit ▸ List.mem_append_left _ hv)
    rw [← hsplit] at hw'
    rw [← hsplit'] at hv'
    have hlt := holder v hv w ((List.mem_append.1 hw').resolve_left hwn)
    have hlt' := holder' w hw v ((List.mem_append.1 hv').resolve_left hvn)
    omega
  rcases hsub with hsub | hsub
  · exact (holder'.perm_shedding hnodup hage (hsplit'.symm ▸ hperm) henough' hsub).symm
  · have hnodup' := hperm.nodup_iff.2 hnodup
    exact holder.perm_shedding hnodup' hage' (hsplit.symm ▸ hperm.symm) henough hsub

end

theorem Twin.unreference (h : e.Twin e') (c : ChunkRef) :
    (e.memory.unreference c).plain = (e'.memory.unreference c).plain := by
  rw [Memory.plain_unreference, h.memory, ← Memory.plain_unreference]

theorem Twin.unreferenceAll (h : e.Twin e') {out out' : List (ChunkId × Resident)}
    (hp : out.Perm out') :
    (out.foldl (fun m v ↦ m.unreference v.2.chunk) e.memory).plain =
      (out'.foldl (fun m v ↦ m.unreference v.2.chunk) e'.memory).plain := by
  have hchunks := Memory.plain_unreferenceAll_perm (hp.map (·.2.chunk)) e.memory
  rw [Memory.plain_unreferenceAll e.memory (out'.map _), h.memory, ← Memory.plain_unreferenceAll,
    List.foldl_map, List.foldl_map] at hchunks
  exact hchunks

theorem Sound.unreferenceAll (h : e.Sound) (out : List (ChunkId × Resident)) :
    (out.foldl (fun m v ↦ m.unreference v.2.chunk) e.memory).Stocked := by
  have hall := h.stocked.unreferenceAll (out.map (·.2.chunk))
  rwa [List.foldl_map] at hall

theorem Twin.retire (h : e.Twin e') (c : ChunkRef) (cause : RemovalCause) :
    (e.retire c cause).Twin (e'.retire c cause) := ⟨h.store.record _, h.unreference c⟩

theorem Sound.retire (h : e.Sound) (c : ChunkRef) (cause : RemovalCause) :
    (e.retire c cause).Sound :=
  ⟨⟨h.coherent.proper, h.coherent.weight⟩, h.stocked.unreference c⟩

theorem Twin.purge (h : e.Twin e') (hs : e.Sound) (hs' : e'.Sound) (keys : ChunkId → Bool) :
    (e.purge keys).Twin (e'.purge keys) where
  store := by
    have hgone := h.store.residentsOn hs.coherent.proper hs'.coherent.proper keys
    refine { h.store.purge hs.coherent.proper hs'.coherent.proper keys with counters := ?_ }
    simp only [Engine.purge, h.store.counters, hgone.length_eq]
  memory := h.unreferenceAll (h.store.residentsOn hs.coherent.proper hs'.coherent.proper keys)

theorem Sound.purge (h : e.Sound) (keys : ChunkId → Bool) : (e.purge keys).Sound where
  coherent := ⟨(h.coherent.purge keys).proper, (h.coherent.purge keys).weight⟩
  stocked := h.unreferenceAll _

theorem Twin.invalidateMatching (h : e.Twin e') (hs : e.Sound) (hs' : e'.Sound)
    (keys : ChunkId → Bool) :
    (e.invalidateMatching keys).1 = (e'.invalidateMatching keys).1 ∧
      (e.invalidateMatching keys).2.Twin (e'.invalidateMatching keys).2 := by
  rw [invalidateMatching_eq, invalidateMatching_eq]
  have hgone := h.store.residentsOn hs.coherent.proper hs'.coherent.proper keys
  exact ⟨hgone.length_eq, h.purge hs hs' keys⟩

theorem Sound.invalidateMatching (h : e.Sound) (keys : ChunkId → Bool) :
    (e.invalidateMatching keys).2.Sound := by
  rw [invalidateMatching_eq]
  exact h.purge keys

theorem Twin.invalidate (h : e.Twin e') (hs : e.Sound) (hs' : e'.Sound) (k : ChunkId) :
    (e.invalidate k).1 = (e'.invalidate k).1 ∧ (e.invalidate k).2.Twin (e'.invalidate k).2 := by
  obtain ⟨hcount, htwin⟩ := h.invalidateMatching hs hs' fun k' ↦ k' = k
  rw [invalidate_eq hs.coherent.proper, invalidate_eq hs'.coherent.proper, hcount]
  exact ⟨rfl, htwin⟩

theorem Sound.invalidate (h : e.Sound) (k : ChunkId) : (e.invalidate k).2.Sound := by
  rw [invalidate_eq h.coherent.proper]
  exact h.invalidateMatching fun k' ↦ k' = k

theorem Twin.without (h : e.Twin e') (hs : e.Sound) (hs' : e'.Sound)
    {victims victims' : List (ChunkId × Resident)} (hp : victims.Perm victims') :
    (e.without victims).Twin (e'.without victims') where
  store := by
    refine { h.store with slots := fun k ↦ ?_, weightedSize := ?_, counters := ?_ }
    · have hmem : k ∈ victims.map Prod.fst ↔ k ∈ victims'.map Prod.fst := (hp.map _).mem_iff
      simp only [Engine.without, get?_eraseAll hs.coherent.proper,
        get?_eraseAll hs'.coherent.proper, hmem, h.store.slots]
    · simp only [Engine.without, h.store.weightedSize, weightOf_perm hp]
    · simp only [Engine.without, h.store.counters, hp.length_eq]
  memory := h.unreferenceAll hp

theorem evictIfNeeded_of_batchSize (h : e.store.batchSize = 0) : e.evictIfNeeded = e := by
  have hnone : e.store.candidates = [] := by simp [Store.candidates, Store.leastRecent, h]
  unfold evictIfNeeded
  split
  · rfl
  · rcases e.store.size with _ | rounds
    · rfl
    · simp [evictDown, hnone, evictBatch]

theorem Sound.evictIfNeeded (h : e.Sound) : e.evictIfNeeded.Sound := by
  by_cases hb : e.store.batchSize = 0
  · rwa [evictIfNeeded_of_batchSize hb]
  by_cases ho : e.store.weightedSize ≤ e.store.capacity.toNat
  · rwa [evictIfNeeded_of_le ho]
  obtain ⟨order, hperm, -, he⟩ := evictIfNeeded_eq h.coherent hb (Nat.lt_of_not_le ho)
  rw [← shedding_append_drop e.store.targetWeight e.store.weightedSize order] at hperm
  rw [he]
  exact ⟨(residents_without h.coherent hperm).1, h.unreferenceAll _⟩

/-- Passes over the same chunks, in whatever order they come to them, take out the same, as long as
neither has to choose among equals. -/
theorem Twin.evictIfNeeded (h : e.Twin e') (hs : e.Sound) (hs' : e'.Sound) (hu : e.Untied) :
    e.evictIfNeeded.Twin e'.evictIfNeeded := by
  obtain ⟨hcapacity, htarget, hbatch, -⟩ := h.store.fixed
  have hweight := h.store.weightedSize
  have hresidents := h.store.residents hs.coherent.proper hs'.coherent.proper
  by_cases hb : e.store.batchSize = 0
  · rwa [evictIfNeeded_of_batchSize hb, evictIfNeeded_of_batchSize (hbatch ▸ hb)]
  by_cases ho : e.store.weightedSize ≤ e.store.capacity.toNat
  · rwa [evictIfNeeded_of_le ho, evictIfNeeded_of_le (hcapacity ▸ hweight ▸ ho)]
  have hover := Nat.lt_of_not_le ho
  obtain ⟨order, hperm, hage, he⟩ := evictIfNeeded_eq hs.coherent hb hover
  obtain ⟨order', hperm', hage', he'⟩ :=
    evictIfNeeded_eq hs'.coherent (hbatch ▸ hb) (hcapacity ▸ hweight ▸ hover)
  have holder {l : List (ChunkId × Resident)} (hl : l.Perm e.store.residents) (ha : ByAge l) :
      Older (shedding e.store.targetWeight e.store.weightedSize l)
        (l.drop (shedding e.store.targetWeight e.store.weightedSize l).length) := by
    refine older_of_byAge ?_ (hu hover l hl ha)
    rwa [shedding_append_drop]
  have hperm'' : order'.Perm e.store.residents := hperm'.trans hresidents.symm
  have hvictims := shedding_perm (hperm.nodup_iff.2 (Store.nodup_residents hs.coherent.proper))
    (hperm''.trans hperm.symm) hage hage' (holder hperm hage) (holder hperm'' hage')
    (shedding_residents_enough hs.coherent hperm) (shedding_residents_enough hs.coherent hperm'')
  rw [he, he', ← htarget, ← hweight]
  exact h.without hs hs' hvictims

theorem Twin.request (h : e.Twin e') (hs : e.Sound) (hs' : e'.Sound) (k : ChunkId) :
    (e.request k).1 = (e'.request k).1 ∧ (e.request k).2.Twin (e'.request k).2 := by
  have hp := hs.coherent.proper
  have hp' := hs'.coherent.proper
  have hslot := h.store.slots k
  rcases hk : e.store.slots.get? k with _ | (r | t) <;> rw [hk] at hslot
  · rw [request_free hk, request_free hslot.symm, ← h.store.results]
    have hinsert := h.store.insert hp hp' k (.loading e.store.results.size)
    refine ⟨rfl, ?_, h.memory⟩
    simp only [onStore, ← h.store.results]
    exact { hinsert with
      results := rfl
      counters := congrArg (·.record .miss) h.store.counters }
  · rw [request_resident hk, request_resident hslot.symm]
    exact ⟨rfl, (h.store.touch hp hp' k r).record .hit, h.memory⟩
  · rw [request_loading hk, request_loading hslot.symm]
    exact ⟨rfl, h.store.record .hit, h.memory⟩

theorem Sound.request (h : e.Sound) (k : ChunkId) : (e.request k).2.Sound := by
  have hp := proper_request h.coherent.proper k
  rcases hk : e.store.slots.get? k with _ | (r | t)
  · rw [request_free hk] at hp ⊢
    refine ⟨⟨hp, ?_⟩, h.stocked⟩
    have hsame := Store.residents_insert_loading h.coherent.proper hk e.store.results.size
    exact h.coherent.weight.trans (congrArg weightOf hsame.symm)
  · rw [request_resident hk] at hp ⊢
    have hentries := Store.entries_touch h.coherent.proper hk
    have htouch := Store.coherent_of_entries h.coherent (Store.proper_touch h.coherent.proper r)
      (hentries ▸ .refl _) (Store.alike_touch e.store k r).weightedSize
    exact ⟨⟨hp, htouch.weight⟩, h.stocked⟩
  · rw [request_loading hk] at hp ⊢
    exact ⟨⟨hp, h.coherent.weight⟩, h.stocked⟩

theorem Twin.size_chunks (h : e.Twin e') : e.memory.chunks.size = e'.memory.chunks.size := by
  have hsize := congrArg (fun m : Memory ↦ m.chunks.size) h.memory
  simpa [Memory.plain] using hsize

theorem Twin.settled (h : e.Twin e') (hs : e.Sound) (hs' : e'.Sound) (k : ChunkId) (t : Ticket)
    {b b' : Block} (hb : b.plain = b'.plain) : (e.settled k t b).Twin (e'.settled k t b') where
  store := by
    have hcapacity := Block.capacity_of_plain hb
    have hloaded := h.store.record (.loaded 0)
    have hsettle := (hloaded.settle hs.coherent.proper hs'.coherent.proper k t
      e.memory.chunks.size b.capacity).2
    simp only [Engine.settled, arrive, Memory.adopt, ← h.size_chunks, ← hcapacity]
    exact hsettle.publish t _
  memory := by
    show (e.memory.adopt b k.position).2.plain = (e'.memory.adopt b' k.position).2.plain
    rw [Memory.plain_adopt, h.memory, hb, ← Memory.plain_adopt]

theorem Sound.settled (h : e.Sound) (k : ChunkId) (t : Ticket) {b : Block}
    (hb : b.capacity < Block.capacityLimit) : (e.settled k t b).Sound where
  coherent := by
    have hloaded : (e.store.record (.loaded 0)).Coherent := ⟨h.coherent.proper, h.coherent.weight⟩
    have hsettle := hloaded.settle k t e.memory.chunks.size b.capacity
    exact ⟨hsettle.proper, hsettle.weight⟩
  stocked := h.stocked.adopt hb k.position

theorem Twin.failed (h : e.Twin e') (hs : e.Sound) (hs' : e'.Sound) (k : ChunkId) (t : Ticket)
    (f : Failure) : (e.finish k t (.error f)).1 = (e'.finish k t (.error f)).1 ∧
      (e.finish k t (.error f)).2.Twin (e'.finish k t (.error f)).2 := by
  have hp := hs.coherent.proper
  have hp' := hs'.coherent.proper
  cases f with
  | error error =>
    have hclear := (h.store.record (.loadFailed 0)).clearLoad hp hp' k t
    exact ⟨rfl, hclear.publish t (.error error), h.memory⟩
  | panic => exact ⟨rfl, (h.store.clearLoad hp hp' k t).publish t _, h.memory⟩
  | stuck => exact ⟨rfl, h⟩

theorem Sound.failed (h : e.Sound) (k : ChunkId) (t : Ticket) (f : Failure) :
    (e.finish k t (.error f)).2.Sound := by
  cases f with
  | error error =>
    have hloaded : (e.store.record (.loadFailed 0)).Coherent :=
      ⟨h.coherent.proper, h.coherent.weight⟩
    have hclear := hloaded.clearLoad k t
    exact ⟨⟨hclear.proper, hclear.weight⟩, h.stocked⟩
  | panic =>
    have hclear := h.coherent.clearLoad k t
    exact ⟨⟨hclear.proper, hclear.weight⟩, h.stocked⟩
  | stuck => exact h

end Engine
end ReadCache
