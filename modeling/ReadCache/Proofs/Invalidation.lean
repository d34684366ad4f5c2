import ReadCache.Proofs.LostLoads
import ReadCache.Proofs.Origins
import ReadCache.Proofs.Overcounting
import ReadCache.Proofs.Sequential
import ReadCache.Proofs.WholeCalls

namespace ReadCache

open Relation

namespace ShardedMap
variable {K V : Type}

def keep (m : ShardedMap K V) (keys : K → Bool) : ShardedMap K V :=
  { m with shards := m.shards.map fun l ↦ l.filter fun b ↦ keys b.1 }

variable (m : ShardedMap K V) (keys : K → Bool)

@[simp] theorem shardCount_keep : (m.keep keys).shardCount = m.shardCount := by
  simp [keep, shardCount]

@[simp] theorem home_keep : (m.keep keys).home = m.home := by
  funext k
  simp [home, keep, shardCount]

theorem shard_keep (i : Nat) : (m.keep keys).shard i = (m.shard i).filter fun b ↦ keys b.1 := by
  by_cases hi : i < m.shards.size <;> simp [keep, shard, hi]

theorem toList_keep : (m.keep keys).toList = m.toList.filter fun b ↦ keys b.1 := by
  simp only [toList, keep, Array.toList_map, List.filter_flatten]

theorem eq_of_shard {m m' : ShardedMap K V} (hash : m'.hash = m.hash)
    (count : m'.shardCount = m.shardCount) (h : ∀ i, m'.shard i = m.shard i) : m' = m := by
  obtain ⟨hash', shards'⟩ := m'
  obtain ⟨_, shards⟩ := m
  subst hash
  have hshards : shards' = shards := by
    refine Array.ext count fun i hi hi' ↦ ?_
    simpa [shard, hi, hi'] using h i
  rw [hshards]

variable {m}

theorem Proper.keep (h : m.Proper) : (m.keep keys).Proper where
  shards_pos := by simpa using h.shards_pos
  home i b hb := by
    rw [shard_keep] at hb
    rw [home_keep]
    exact h.home i b (List.mem_filter.1 hb).1
  nodup := by
    rw [toList_keep]
    exact h.nodup.sublist (List.filter_sublist.map _)

variable [DecidableEq K]

theorem get?_keep (m : ShardedMap K V) (k : K) :
    (m.keep keys).get? k = if keys k then m.get? k else none := by
  rw [get?, get?, home_keep, shard_keep, get?_filter]

theorem Proper.erase_eq (h : m.Proper) (k : K) : m.erase k = m.keep fun k' ↦ k' ≠ k := by
  refine eq_of_shard rfl (by simp [shardCount_erase]) fun i ↦ ?_
  rw [shard_keep, ShardedMap.erase]
  by_cases hi : m.home k = i
  · subst hi
    rw [shard_setShard_self (home_lt h.shards_pos k)]
    rfl
  · rw [shard_setShard_ne m _ hi]
    symm
    refine List.filter_eq_self.2 fun b hb ↦ ?_
    have hne : b.1 ≠ k := fun he ↦ hi (he ▸ h.home i b hb)
    simpa using hne

end ShardedMap

namespace Store

def residentsOn (s : Store) (keys : ChunkId → Bool) : List (ChunkId × Resident) :=
  s.residents.filter fun v ↦ keys v.1

def purge (s : Store) (keys : ChunkId → Bool) : Store :=
  { s with
    slots := s.slots.keep fun k ↦ !keys k
    weightedSize := s.weightedSize - weightOf (s.residentsOn keys) }

variable {s : Store} {keys : ChunkId → Bool} {k : ChunkId}

theorem residentsOf_filter (l : List (ChunkId × Slot)) (keys : ChunkId → Bool) :
    residentsOf (l.filter fun b ↦ keys b.1) = (residentsOf l).filter fun v ↦ keys v.1 := by
  induction l with
  | nil => rfl
  | cons b l ih =>
    obtain ⟨k, r | t⟩ := b <;> cases hk : keys k <;> simp [hk, ih]

theorem matching_of_ne {i j : Nat} (h : j ≠ i) (s : Store) (keys : ChunkId → Bool) :
    (s.sweepShard j keys).2.matching i keys = s.matching i keys := by
  rw [sweepShard_eq, matching, ShardedMap.shard_setShard_ne _ _ h]
  rfl

end Store

namespace Sweep
variable {keys : ChunkId → Bool}

def emptied (keys : ChunkId → Bool) (m : ShardedMap ChunkId Slot) (l : List Nat) :
    ShardedMap ChunkId Slot :=
  l.foldl (fun m i ↦ m.setShard i ((m.shard i).filter fun b ↦ !keys b.1)) m

theorem shards_eq (keys : ChunkId → Bool) {l : List Nat} (hl : l.Nodup) (out : List Resident)
    (s : Store) :
    shards keys l out s =
      (out ++ (l.flatMap (s.matching · keys)).map Prod.snd,
        { s with
          slots := emptied keys s.slots l
          weightedSize := s.weightedSize - weightOf (l.flatMap (s.matching · keys)) }) := by
  induction l generalizing out s with
  | nil => simp [shards, emptied]
  | cons i l ih =>
    obtain ⟨hi, hl⟩ := List.nodup_cons.1 hl
    -- A sweep of one shard leaves what matches in the others.
    have hrest : l.flatMap ((s.sweepShard i keys).2.matching · keys) =
        l.flatMap (s.matching · keys) :=
      List.flatMap_congr fun j hj ↦ Store.matching_of_ne (fun he : i = j ↦ hi (he ▸ hj)) s keys
    have hih := ih hl (out ++ (s.sweepShard i keys).1) (s.sweepShard i keys).2
    rw [hrest] at hih
    show shards keys l (out ++ (s.sweepShard i keys).1) (s.sweepShard i keys).2 = _
    rw [hih, Store.sweepShard_eq]
    simp only [List.flatMap_cons, List.map_append, List.append_assoc, weightOf_append, Nat.sub_sub]
    rfl

theorem shard_emptied (m : ShardedMap ChunkId Slot) {l : List Nat} (i : Nat) :
    (emptied keys m l).shard i =
      if i ∈ l then (m.shard i).filter fun b ↦ !keys b.1 else m.shard i := by
  induction l generalizing m with
  | nil => rfl
  | cons j l ih =>
    show (emptied keys (m.setShard j _) l).shard i = _
    rw [ih]
    by_cases he : j = i
    · subst he
      by_cases hj : j < m.shardCount
      · simp [ShardedMap.shard_setShard_self hj]
      · have hnil : m.shard j = [] := by
          simp only [ShardedMap.shardCount] at hj
          simp [ShardedMap.shard, hj]
        have hnil' : (m.setShard j []).shard j = [] := by
          simp only [ShardedMap.shardCount] at hj
          simp [ShardedMap.shard, ShardedMap.setShard, hj]
        simp [hnil, hnil']
    · simp [ShardedMap.shard_setShard_ne m _ he, Ne.symm he]

theorem emptied_range (m : ShardedMap ChunkId Slot) :
    emptied keys m (List.range m.shardCount) = m.keep fun k ↦ !keys k := by
  have hfixed (l : List Nat) (m : ShardedMap ChunkId Slot) :
      (emptied keys m l).hash = m.hash ∧ (emptied keys m l).shardCount = m.shardCount := by
    induction l generalizing m with
    | nil => exact ⟨rfl, rfl⟩
    | cons i l ih =>
      obtain ⟨hash, count⟩ := ih (m.setShard i ((m.shard i).filter fun b ↦ !keys b.1))
      exact ⟨hash, count.trans (ShardedMap.shardCount_setShard _ _ _)⟩
  obtain ⟨hash, count⟩ := hfixed (List.range m.shardCount) m
  refine ShardedMap.eq_of_shard hash (by simpa using count) fun i ↦ ?_
  rw [shard_emptied, ShardedMap.shard_keep]
  by_cases hi : i < m.shardCount
  · simp [hi]
  · simp only [ShardedMap.shardCount] at hi
    simp [ShardedMap.shard, hi]

end Sweep

namespace Store
variable {s : Store} {keys : ChunkId → Bool} {k : ChunkId}

theorem sweep_eq (s : Store) (keys : ChunkId → Bool) :
    s.sweep keys = ((s.residentsOn keys).map Prod.snd, s.purge keys) := by
  have hall : (List.range s.slots.shardCount).flatMap (s.matching · keys) = s.residentsOn keys := by
    rw [residentsOn, residents_eq_flatMap, List.filter_flatMap]
    exact List.flatMap_congr fun i _ ↦ residentsOf_filter _ keys
  have hsweep := Sweep.shards_eq keys (List.nodup_range (n := s.slots.shardCount)) [] s
  rw [hall, Sweep.emptied_range, List.nil_append] at hsweep
  exact hsweep

theorem residentsOn_eq_of_resident (h : s.slots.Proper) {r : Resident}
    (hr : s.slots.get? k = some (.resident r)) : s.residentsOn (fun k' ↦ k' = k) = [(k, r)] := by
  obtain ⟨a, b, hab, -, herase⟩ := h.split_of_get?_some hr
  have hnone (x : ChunkId × Slot) (hx : x ∈ a ++ b) : x.1 ≠ k := by
    intro he
    have hget : (s.slots.erase k).get? k = some x.2 :=
      (h.erase k).get?_eq_some_iff.2 (by rw [herase, ← he]; exact hx)
    rw [ShardedMap.get?_erase_self h.shards_pos] at hget
    cases hget
  have hempty (l : List (ChunkId × Slot)) (hl : l ⊆ a ++ b) :
      (residentsOf l).filter (fun v ↦ decide (v.1 = k)) = [] := by
    refine List.filter_eq_nil_iff.2 fun v hv ↦ ?_
    simpa using hnone _ (hl (mem_residentsOf.1 hv))
  rw [residentsOn, residents, hab, residentsOf_append, residentsOf_resident, List.filter_append,
    List.filter_cons, hempty a (List.subset_append_left _ _),
    hempty b (List.subset_append_right _ _)]
  simp

theorem residentsOn_eq_nil (h : s.slots.Proper) (hn : ∀ r, s.slots.get? k ≠ some (.resident r)) :
    s.residentsOn (fun k' ↦ k' = k) = [] := by
  refine List.filter_eq_nil_iff.2 fun v hv hk ↦ hn v.2 ?_
  rw [← of_decide_eq_true hk]
  exact (mem_residents h).1 hv

theorem remove_eq (h : s.slots.Proper) (k : ChunkId) :
    s.remove k = (((s.residentsOn fun k' ↦ k' = k).map Prod.snd).head?,
      s.purge fun k' ↦ k' = k) := by
  have herase := h.erase_eq k
  rcases hk : s.slots.get? k with _ | (r | t)
  · have hnil := residentsOn_eq_nil (k := k) h (by simp [hk])
    simp [remove, detach, hk, purge, hnil, herase]
  · have hone := residentsOn_eq_of_resident h hk
    simp [remove, detach, hk, purge, hone, herase, discount]
  · have hnil := residentsOn_eq_nil (k := k) h (by simp [hk])
    simp [remove, detach, hk, purge, hnil, herase]

end Store

namespace Engine

def purge (e : Engine) (keys : ChunkId → Bool) : Engine where
  store :=
    { e.store.purge keys with
      counters :=
        { e.store.counters with
          evictionsExplicit :=
            e.store.counters.evictionsExplicit + (e.store.residentsOn keys).length } }
  memory := (e.store.residentsOn keys).foldl (fun m v ↦ m.unreference v.2.chunk) e.memory

variable {e : Engine}

theorem retireAll_eq (e : Engine) (out : List (ChunkId × Resident)) :
    e.retireAll (out.map Prod.snd) .explicit =
      { store :=
          { e.store with
            counters :=
              { e.store.counters with
                evictionsExplicit := e.store.counters.evictionsExplicit + out.length } }
        memory := out.foldl (fun m v ↦ m.unreference v.2.chunk) e.memory } := by
  induction out generalizing e with
  | nil => rfl
  | cons v out ih =>
    have hrest := ih (e.retire v.2.chunk .explicit)
    rw [List.length_cons, Nat.add_comm out.length 1, ← Nat.add_assoc]
    exact hrest

theorem invalidateMatching_eq (e : Engine) (keys : ChunkId → Bool) :
    e.invalidateMatching keys = ((e.store.residentsOn keys).length, e.purge keys) := by
  rw [invalidateMatching, Store.sweep_eq]
  simp only [retireAll_eq, List.length_map]
  rfl

theorem invalidate_eq (h : e.store.slots.Proper) (k : ChunkId) :
    e.invalidate k =
      (decide ((e.invalidateMatching fun k' ↦ k' = k).1 = 1),
        (e.invalidateMatching fun k' ↦ k' = k).2) := by
  rw [invalidateMatching_eq, invalidate, Store.remove_eq h]
  by_cases hr : ∃ r, e.store.slots.get? k = some (.resident r)
  · obtain ⟨r, hr⟩ := hr
    have hone := Store.residentsOn_eq_of_resident h hr
    simp only [hone, purge]
    rfl
  · have hnil := Store.residentsOn_eq_nil h (k := k) fun r he ↦ hr ⟨r, he⟩
    simp only [hnil, purge]
    rfl

theorem invalidate_iff (h : e.store.slots.Proper) (k : ChunkId) :
    (e.invalidate k).1 = true ↔ ∃ r, e.store.slots.get? k = some (.resident r) := by
  rw [invalidate_eq h, invalidateMatching_eq]
  by_cases hr : ∃ r, e.store.slots.get? k = some (.resident r)
  · obtain ⟨r, hr⟩ := hr
    simp [Store.residentsOn_eq_of_resident h hr, hr]
  · have hnil := Store.residentsOn_eq_nil h (k := k) fun r he ↦ hr ⟨r, he⟩
    simpa [hnil] using hr

end Engine

theorem Memory.ages_unreferenceAll (m : Memory) (out : List (ChunkId × Resident)) :
    m.Ages (out.foldl (fun m v ↦ m.unreference v.2.chunk) m) := by
  induction out generalizing m with
  | nil => exact ages_refl m
  | cons v out ih => exact (ages_unreference m v.2.chunk).trans (ih _)

theorem Uninterrupted.accounted {α : Type} {step : Shared → α → Option (α × Shared)}
    (held : α → List ChunkRef) {rest : List ChunkRef} {loose : Nat}
    (hstep : ∀ {s s' : Shared} {x x' : α}, s.Accounted (held x ++ rest) loose →
      step s x = some (x', s') → s'.Accounted (held x' ++ rest) loose)
    {a b : α × Shared} (hr : Uninterrupted step a b) (h : a.2.Accounted (held a.1 ++ rest) loose) :
    b.2.Accounted (held b.1 ++ rest) loose := by
  induction hr with
  | refl => exact h
  | tail _ hs ih => exact hstep ih hs

namespace Traffic
variable {t u w : Traffic} {keys : ChunkId → Bool} {s : Shared} {log : List Tick}

/-- The slots of some keys were emptied at `u`, and `s` is what is shared then. -/
structure Invalidated (u : Traffic) (keys : ChunkId → Bool) (s : Shared) : Prop where
  slots : ∀ k, s.store.slots.get? k = if keys k then none else u.shared.store.slots.get? k
  weight : s.store.weightedSize + weightOf (u.shared.store.residentsOn keys) =
    u.shared.store.weightedSize
  counters : s.store.counters =
    { u.shared.store.counters with
      evictionsExplicit := u.shared.store.counters.evictionsExplicit +
        (u.shared.store.residentsOn keys).length }
  clock : s.store.clock = u.shared.store.clock
  results : s.store.results = u.shared.store.results
  settings : s.store.settings = u.shared.store.settings
  handles : s.handles = u.shared.handles
  /-- The reference to a chunk that was resident is given up, once. -/
  gone : ∀ v ∈ u.shared.store.residentsOn keys,
    s.memory.chunk? v.2.chunk = (u.shared.memory.chunk? v.2.chunk).map (·.unreference.2)
  others : ∀ c, (∀ v ∈ u.shared.store.residentsOn keys, v.2.chunk ≠ c) →
    s.memory.chunk? c = u.shared.memory.chunk? c
  /-- Whatever comes after, no load that had begun gets a slot of one of the keys, and what it reads
  is not made resident. -/
  lost : ∀ k p, keys k = true → p < u.shared.store.results.size →
    ∀ log w, Records ⟨s, u.calls⟩ log w → w.shared.store.occupant? k ≠ some (.loading p) ∧
      ∀ x ∈ log, ∀ c, x.settles? = some (k, p, c) → x.after.shared.store = x.before.shared.store

/-- What was resident under some keys at `u` is left to its handles at `s`. -/
structure LeftToHandles (u : Traffic) (keys : ChunkId → Bool) (s : Shared) : Prop where
  /-- Its chunk has one reference less, and those of its handles are left. -/
  references : ∀ v ∈ u.shared.store.residentsOn keys, ∃ chunk chunk',
    u.shared.memory.chunk? v.2.chunk = some chunk ∧ s.memory.chunk? v.2.chunk = some chunk' ∧
    chunk'.references.toNat + 1 = chunk.references.toNat ∧
    chunk'.references.toNat = u.handlesOn v.2.chunk
  /-- Whatever comes after, its bytes are what they were as long as there is a handle on it. -/
  bytes : ∀ v ∈ u.shared.store.residentsOn keys, ∀ log w, Records ⟨s, u.calls⟩ log w →
    (∀ x ∈ log, x.after.Modest) → 0 < w.handlesOn v.2.chunk →
    (w.shared.memory.view? v.2.chunk).isSome ∧
      w.shared.memory.view? v.2.chunk = u.shared.memory.view? v.2.chunk

theorem view?_of_handled (h : t.Accounted) {c : ChunkRef} (hc : 0 < t.handlesOn c) :
    ∃ chunk b, t.shared.memory.chunk? c = some chunk ∧ chunk.block = some b ∧
      t.shared.memory.view? c = some b.bytes := by
  have hmem : c ∈ t.shared.refs t.held := List.mem_append_right _ (List.count_pos_iff.1 hc)
  obtain ⟨chunk, hchunk⟩ := Memory.exists_chunk (h.ledger.counts.known c hmem)
  obtain ⟨b, hb⟩ := Option.isSome_iff_exists.1 ((h.ledger.counts.kept c chunk hchunk).2 hmem)
  have hcount := h.ledger.counts.count c chunk hchunk
  have hpos := List.count_pos_iff.2 hmem
  have hz : chunk.references ≠ 0 := by
    intro hz
    rw [hz] at hcount
    exact absurd hcount.symm (Nat.ne_of_gt hpos)
  refine ⟨chunk, b, hchunk, hb, ?_⟩
  simp [Memory.view?, hchunk, Chunk.view?, hz, hb]

theorem view?_of_ages (h : w.Accounted)
    (hages : t.shared.memory.Ages w.shared.memory) {c : ChunkRef} {chunk : Chunk}
    (hc : t.shared.memory.chunk? c = some chunk) (hz : chunk.references ≠ 0)
    (hpos : 0 < w.handlesOn c) :
    (w.shared.memory.view? c).isSome ∧ w.shared.memory.view? c = t.shared.memory.view? c := by
  obtain ⟨chunk', b, hc', hb, hview⟩ := view?_of_handled h hpos
  obtain ⟨_, hage, hsame⟩ := hages c chunk hc
  obtain rfl := Option.some.inj (hc'.symm.trans hage)
  refine ⟨by simp [hview], ?_⟩
  rw [hview]
  simp [Memory.view?, hc, Chunk.view?, hz, hsame.block b hb]

/-- A load that comes to its slot and does not find itself there leaves the table alone. -/
theorem store_of_lost {x : Tick} (hp : x.before.shared.store.slots.Proper)
    (hs : x.before.step x.move = some x.after) {k : ChunkId} {p : Ticket} {c : ChunkRef}
    (hx : x.settles? = some (k, p, c))
    (hk : x.before.shared.store.occupant? k ≠ some (.loading p)) :
    x.after.shared.store = x.before.shared.store := by
  have hgo := step_goes hp hs
  unfold Tick.settles? at hx
  split at hx
  · rename_i k' p' c' w b hstages
    cases hx
    rcases hgo.stage hstages with hstage | ⟨_, he⟩
    · generalize x.after.shared = s at hstage
      cases hstage with
      | hit h _ _ | join h _ _ => rcases h with he | he <;> cases he
      | settle h _ => exact absurd h hk
      | lose _ => rfl
    · cases he
  · cases hx

theorem Records.invalidated_of_purge (ht : t.Initial) (h : Records t log u)
    (he : s.engine = u.shared.engine.purge keys) (hsame : s.handles = u.shared.handles) :
    u.Invalidated keys s := by
  have hp := h.proper ht.proper
  have hkept := h.kept ht
  have hstore : s.store = (u.shared.engine.purge keys).store := congrArg Engine.store he
  have hmemory : s.memory = (u.shared.engine.purge keys).memory := congrArg Engine.memory he
  have hslots (k : ChunkId) :
      s.store.slots.get? k = if keys k then none else u.shared.store.slots.get? k := by
    rw [hstore]
    refine (ShardedMap.get?_keep _ u.shared.store.slots k).trans ?_
    cases keys k <;> rfl
  have hown : ((u.shared.store.residentsOn keys).map (·.2.chunk)).Nodup :=
    hkept.own.sublist (List.filter_sublist.map _)
  have hchunk (c : ChunkRef) : s.memory.chunk? c = (u.shared.memory.chunk? c).map fun chunk ↦
      if c ∈ (u.shared.store.residentsOn keys).map (·.2.chunk) then chunk.unreference.2
      else chunk := by
    rw [hmemory]
    exact Engine.chunk?_unreferenceAll u.shared.memory hown c
  constructor
  case slots => exact hslots
  case weight =>
    have hle : weightOf (u.shared.store.residentsOn keys) ≤ weightOf u.shared.store.residents :=
      (List.filter_sublist.map _).sum_le_sum fun _ _ ↦ Nat.zero_le _
    have hreach : t.Reaches (fun _ ↦ True) u := h.reachable
    have hweight := (weighed_of_reaches (weighed_of_initial ht) hreach).weight
    rw [Store.residentWeight_eq] at hweight
    rw [hstore]
    show u.shared.store.weightedSize - weightOf (u.shared.store.residentsOn keys) +
      weightOf (u.shared.store.residentsOn keys) = u.shared.store.weightedSize
    omega
  case counters | clock | results | settings => rw [hstore]; rfl
  case handles => exact hsame
  case gone =>
    intro v hv
    have hmem : v.2.chunk ∈ (u.shared.store.residentsOn keys).map (·.2.chunk) :=
      List.mem_map_of_mem hv
    simp only [hchunk, hmem, if_true]
  case others =>
    intro c hc
    have hnot : c ∉ (u.shared.store.residentsOn keys).map (·.2.chunk) := by simpa using hc
    simp only [hchunk, hnot, if_false, Option.map_id']
  case lost =>
    intro k p hk hsize log w hrec
    have hproper : s.store.slots.Proper := by
      rw [hstore]
      exact ShardedMap.Proper.keep (fun k ↦ !keys k) hp
    have hsize : p < s.store.results.size := by
      rw [hstore]
      exact hsize
    have hfree : s.store.occupant? k ≠ some (.loading p) := by
      rw [Store.occupant?, hslots, if_pos hk]
      simp
    refine ⟨hrec.lost hproper hsize hfree, fun x hx c hc ↦ ?_⟩
    obtain ⟨n, hn⟩ := List.mem_iff_getElem?.1 hx
    obtain ⟨hbefore, hs, -⟩ := hrec.at hn
    exact store_of_lost (hbefore.proper hproper) hs hc (hbefore.lost hproper hsize hfree)

theorem leftToHandles_of_purge (ha : u.Accounted) (ha' : Accounted ⟨s, u.calls⟩)
    (he : s.engine = u.shared.engine.purge keys) (hi : u.Invalidated keys s) :
    u.LeftToHandles keys s := by
  have hmem {v : ChunkId × Resident} (hv : v ∈ u.shared.store.residentsOn keys) :
      v ∈ u.shared.store.residents := (List.mem_filter.1 hv).1
  constructor
  case references =>
    intro v hv
    obtain ⟨chunk, hc, hz⟩ := referenced_of_resident ha (hmem hv)
    have hless := Engine.references_unreference hz
    have howed : u.Owed v.2.chunk := by
      refine .inl ?_
      simp only [Store.chunks, Store.entries, List.map_map]
      exact List.mem_map_of_mem (f := fun v : ChunkId × Resident ↦ v.2.chunk) (hmem hv)
    have hcount := ha.ledger.counts.count _ chunk hc
    rw [count_refs ha, if_pos howed] at hcount
    have hgone := hi.gone v hv
    rw [hc, Option.map_some] at hgone
    exact ⟨chunk, chunk.unreference.2, hc, hgone, hless, by omega⟩
  case bytes =>
    intro v hv log w hrec hmodest hpos
    obtain ⟨chunk, hc, hz⟩ := referenced_of_resident ha (hmem hv)
    have hw' : w.Accounted := accounted_of_reaches ha' (hrec.reaches hmodest)
    have hmemory : s.memory = (u.shared.engine.purge keys).memory := congrArg Engine.memory he
    have hages : u.shared.memory.Ages w.shared.memory := by
      refine Memory.Ages.trans ?_ (hrec.grows ha'.proper).ages
      show u.shared.memory.Ages s.memory
      rw [hmemory]
      exact Memory.ages_unreferenceAll _ _
    exact view?_of_ages hw' hages hc hz hpos

/-- A sweep that no other call interrupts, wherever the others stand, takes out what is resident
under the keys that match and nothing else, tells how many chunks that were, and takes their slots
from the loads that are under way for such keys. As long as there were never more handles than a
count can tell, its chunks are left to their handles. The removal of one key is the sweep of that
key and tells whether it was resident, and what is swept for a file are the keys of its path. -/
theorem invalidation_precise (ht : t.Initial) (h : Records t log u) :
    (∀ matches?, ∃ s, Uninterrupted (Sweep.step matches?) (.clear 0 [], u.shared)
        (.ended (u.shared.store.residentsOn matches?).length, s) ∧
      u.shared.engine.invalidateMatching matches? =
        ((u.shared.store.residentsOn matches?).length, s.engine) ∧
      u.Invalidated matches? s ∧
      ((∀ x ∈ log, x.after.Modest) → u.LeftToHandles matches? s)) ∧
    (∀ k, ∃ removed s, Uninterrupted (Removal.step k) (.detach, u.shared) (.ended removed, s) ∧
      u.shared.engine.invalidate k = (removed, s.engine) ∧
      s.engine = (u.shared.engine.invalidateMatching fun k' ↦ k' = k).2 ∧
      (removed = true ↔ ∃ r, u.shared.store.slots.get? k = some (.resident r)) ∧
      u.Invalidated (fun k' ↦ k' = k) s ∧
      ((∀ x ∈ log, x.after.Modest) → u.LeftToHandles (fun k' ↦ k' = k) s)) ∧
    ∀ path, ∃ s, u.shared.engine.invalidateFile path =
        ((u.shared.store.residentsOn fun k ↦ k.path = path).length, s.engine) ∧
      u.Invalidated (fun k ↦ k.path = path) s ∧
      ((∀ x ∈ log, x.after.Modest) → u.LeftToHandles (fun k ↦ k.path = path) s) ∧
      (∀ kind position, s.store.slots.get? ⟨path, kind, position⟩ = none) ∧
      ∀ k, k.path ≠ path → s.store.slots.get? k = u.shared.store.slots.get? k := by
  have hp := h.proper ht.proper
  have haccounted (hmodest : ∀ x ∈ log, x.after.Modest) : u.Accounted :=
    accounted_of_reaches (accounted_of_initial ht) (h.reaches hmodest)
  have hsweep (matches? : ChunkId → Bool) : ∃ s,
      Uninterrupted (Sweep.step matches?) (.clear 0 [], u.shared)
        (.ended (u.shared.store.residentsOn matches?).length, s) ∧
      u.shared.engine.invalidateMatching matches? =
        ((u.shared.store.residentsOn matches?).length, s.engine) ∧
      u.Invalidated matches? s ∧
      ((∀ x ∈ log, x.after.Modest) → u.LeftToHandles matches? s) := by
    obtain ⟨s, hrun, heng, hsame, -⟩ := Sweep.uninterrupted matches? u.shared
    have hcall := Engine.invalidateMatching_eq u.shared.engine matches?
    rw [hcall] at hrun heng
    have hprecise := h.invalidated_of_purge ht heng hsame.handles
    refine ⟨s, hrun, hcall.trans (by rw [heng]), hprecise, fun hmodest ↦ ?_⟩
    have ha := haccounted hmodest
    have ha' : Accounted ⟨s, u.calls⟩ := hrun.accounted Sweep.held Sweep.step_accounted ha
    exact leftToHandles_of_purge ha ha' heng hprecise
  refine ⟨hsweep, fun k ↦ ?_, fun path ↦ ?_⟩
  · obtain ⟨s, hrun, heng, hsame, -⟩ := Removal.uninterrupted k u.shared
    have hcall := Engine.invalidate_eq hp k
    have hmatching : s.engine = (u.shared.engine.invalidateMatching fun k' ↦ k' = k).2 :=
      heng.trans (by rw [hcall])
    refine ⟨_, s, hrun, by rw [heng], hmatching, Engine.invalidate_iff hp k, ?_⟩
    rw [Engine.invalidateMatching_eq] at hmatching
    have hprecise := h.invalidated_of_purge ht hmatching hsame.handles
    refine ⟨hprecise, fun hmodest ↦ ?_⟩
    have ha := haccounted hmodest
    have ha' : Accounted ⟨s, u.calls⟩ := hrun.accounted Removal.held Removal.step_accounted ha
    exact leftToHandles_of_purge ha ha' hmatching hprecise
  · obtain ⟨s, -, hcall, hprecise, hleft⟩ := hsweep fun k ↦ k.path = path
    refine ⟨s, hcall, hprecise, hleft, fun kind position ↦ ?_, fun k hk ↦ ?_⟩
    · rw [hprecise.slots]
      simp
    · rw [hprecise.slots]
      simp [hk]

/-- A chunk with a handle on it is resident and another is being read when all is swept. -/
theorem invalidation_precise_in_flight :
    ∃ (t u : Traffic) (log : List Tick) (s : Shared), t.Initial ∧ Records t log u ∧
      u.handlesOn 0 = 1 ∧
      u.shared.store.occupant? ((smallFile "b" 5).chunkId 0) = some (.loading 1) ∧
      u.shared.engine.invalidateMatching (fun _ ↦ true) = (1, s.engine) ∧
      u.Invalidated (fun _ ↦ true) s ∧ u.LeftToHandles (fun _ ↦ true) s := by
  let moves : List Move := loadSmall 0 "a" 6 8 ++ .reference 0 :: loadSmall 1 "b" 5 3
  obtain ⟨t, u, log, ht, hrec, hhandle, hslot, hone, hfew⟩ :=
    exists_of_record tight ChunkId.hash moves
      (fun log u ↦ u.handlesOn 0 = 1 ∧
        u.shared.store.occupant? ((smallFile "b" 5).chunkId 0) = some (.loading 1) ∧
        (u.shared.store.residentsOn fun _ ↦ true).length = 1 ∧
        ∀ x ∈ log, x.after.shared.handles.length ≤ 1) (by decide +kernel)
  have hmodest : ∀ x ∈ log, x.after.Modest := fun x hx ↦
    modest_of_few (Nat.lt_of_le_of_lt (Nat.succ_le_succ (hfew x hx)) (by decide))
  obtain ⟨s, -, hcall, hprecise, hleft⟩ := (invalidation_precise ht hrec).1 fun _ ↦ true
  rw [hone] at hcall
  exact ⟨t, u, log, s, ht, hrec, hhandle, hslot, hcall, hprecise, hleft hmodest⟩

/-- The handle on a resident is shared until the count of its chunk is back at zero. Invalidated,
the chunk loses no reference, and none of its handles can read it. -/
theorem invalidated_without_reference :
    ∃ (t u : Traffic) (log : List Tick) (r : Resident) (chunk : Chunk), t.Initial ∧
      Records t log u ∧
      u.shared.store.slots.get? ((smallFile "a" 6).chunkId 0) = some (.resident r) ∧
      u.handlesOn r.chunk = UInt32.size - 1 ∧ u.shared.memory.chunk? r.chunk = some chunk ∧
      (u.shared.engine.invalidate ((smallFile "a" 6).chunkId 0)).1 = true ∧
      (u.shared.engine.invalidate ((smallFile "a" 6).chunkId 0)).2.memory.chunk? r.chunk =
        some chunk ∧
      (u.shared.engine.invalidate ((smallFile "a" 6).chunkId 0)).2.memory.view? r.chunk = none := by
  obtain ⟨t, u, log, ht, hrec, hslot, hhandles, href⟩ := exists_of_record tight ChunkId.hash
    (loadSmall 0 "a" 6 8 ++ [.reference 0])
    (fun _ u ↦ u.shared.store.slots.get? ((smallFile "a" 6).chunkId 0) =
        some (.resident ⟨0, 6, 0⟩) ∧ u.shared.handles = [⟨0, none⟩] ∧
      (u.shared.memory.chunk? 0).map Chunk.references = some 2) (by decide +kernel)
  obtain ⟨n, hn⟩ : ∃ n, n + 2 = UInt32.size := ⟨UInt32.size - 2, by decide⟩
  obtain ⟨shares, chunk, hshares, -, hmany, hc, hcount⟩ := exists_shares hhandles href n
  have hall := hrec.append hshares
  have hslot' : (u.shareMany ⟨0, none⟩ n).shared.store.slots.get? ((smallFile "a" 6).chunkId 0) =
      some (.resident ⟨0, 6, 0⟩) := hslot
  generalize u.shareMany ⟨0, none⟩ n = v at *
  have hp := hall.proper ht.proper
  have hcall := Engine.invalidate_eq hp ((smallFile "a" 6).chunkId 0)
  rw [Engine.invalidateMatching_eq] at hcall
  have hprecise : v.Invalidated (fun k ↦ k = (smallFile "a" 6).chunkId 0) _ :=
    hall.invalidated_of_purge ht (s := v.shared.withEngine (v.shared.engine.purge _)) rfl rfl
  have hresident : ((smallFile "a" 6).chunkId 0, ⟨0, 6, 0⟩) ∈
      v.shared.store.residentsOn fun k ↦ k = (smallFile "a" 6).chunkId 0 := by
    rw [Store.residentsOn_eq_of_resident hp hslot']
    exact List.mem_cons_self
  have hgone : (v.shared.engine.purge _).memory.chunk? 0 = _ := hprecise.gone _ hresident
  have hzero := hcount.trans (UInt32.ofNat_eq_zero hn)
  rw [hc, Option.map_some, Chunk.unreference_of_none hzero] at hgone
  refine ⟨t, v, _, ⟨0, 6, 0⟩, chunk, ht, hall, hslot', ?_, hc, ?_, ?_, ?_⟩
  · exact hmany.trans (Nat.eq_sub_of_add_eq (hn ▸ rfl))
  · exact (Engine.invalidate_iff hp _).2 ⟨_, hslot'⟩
  · rw [hcall]
    exact hgone
  · rw [hcall, Memory.view?, hgone, Option.bind_some, Chunk.view?, if_pos hzero]

end Traffic
end ReadCache
