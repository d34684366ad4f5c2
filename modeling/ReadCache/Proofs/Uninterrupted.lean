import ReadCache.Proofs.Eviction
import ReadCache.Proofs.Interleaving

namespace ReadCache

open Relation

/-- From one place of a call to another by its own steps only. -/
def Uninterrupted {α : Type} (step : Shared → α → Option (α × Shared)) :
    α × Shared → α × Shared → Prop :=
  ReflTransGen fun a b ↦ step a.2 a.1 = some b

structure Shared.SameCallers (s s' : Shared) : Prop where
  handles : s'.handles = s.handles
  readers : s'.readers = s.readers

theorem Store.residents_eq_flatMap (s : Store) :
    s.residents = (List.range s.slots.shardCount).flatMap s.residentsIn := by
  have hshards : s.slots.shards.toList = (List.range s.slots.shardCount).map s.slots.shard := by
    refine List.ext_getElem (by simp [ShardedMap.shardCount]) fun i hi _ ↦ ?_
    have hlt : i < s.slots.shards.size := by simpa using hi
    simp [ShardedMap.shard, hlt]
  simp only [residents, residentsOf, ShardedMap.toList, hshards, List.filterMap_flatten,
    List.map_map, List.flatMap]
  rfl

namespace Pass
variable {s : Shared}

theorem collect_rest {shard n : Nat} (seen : List (ChunkId × Resident))
    (h : shard + n = s.store.slots.shardCount) :
    Uninterrupted step (collect shard seen, s)
      (collect s.store.slots.shardCount
        (seen ++ (List.range' shard n).flatMap s.store.residentsIn), s) := by
  induction n generalizing shard seen with
  | zero =>
    rw [Nat.add_zero] at h
    simp only [List.range'_zero, List.flatMap_nil, List.append_nil, h]
    exact .refl
  | succ n ih =>
    have hlt : shard < s.store.slots.shardCount := by omega
    have hrest := ih (seen ++ s.store.residentsIn shard) (by omega : shard + 1 + n = _)
    rw [List.append_assoc] at hrest
    refine .head ?_ hrest
    simp [step, hlt]

theorem collect_all (s : Shared) :
    Uninterrupted step (collect 0 [], s)
      (collect s.store.slots.shardCount s.store.residents, s) := by
  have h := collect_rest (s := s) [] (Nat.zero_add _)
  rwa [List.nil_append, ← List.range_eq_range', ← s.store.residents_eq_flatMap] at h

theorem pick_batch (batch : List (ChunkId × Resident)) (evicted : Nat) (cut : Bool) :
    ∃ rest s', Uninterrupted step (pick ⟨batch, evicted, cut⟩, s)
        (pick ⟨rest, evicted + (s.engine.evictBatch s.store.targetWeight batch).1, cut⟩, s') ∧
      s'.engine = (s.engine.evictBatch s.store.targetWeight batch).2 ∧ s.SameCallers s' ∧
      s'.evicting = s.evicting ∧
      (rest = [] ∨ s'.store.weightedSize ≤ s'.store.targetWeight) := by
  induction batch generalizing s evicted with
  | nil => exact ⟨[], s, .refl, rfl, ⟨rfl, rfl⟩, rfl, .inl rfl⟩
  | cons v batch ih =>
    obtain ⟨k, r⟩ := v
    by_cases hw : s.store.weightedSize ≤ s.store.targetWeight
    · have hnone : s.engine.evictBatch s.store.targetWeight ((k, r) :: batch) = (0, s.engine) := by
        simp [Engine.evictBatch, hw]
      rw [hnone]
      exact ⟨(k, r) :: batch, s, .refl, rfl, ⟨rfl, rfl⟩, rfl, .inr hw⟩
    · have hpick : step s (pick ⟨(k, r) :: batch, evicted, cut⟩) =
          some (take k r.chunk ⟨batch, evicted, cut⟩, s) := by
        simp [step, hw]
      rcases Store.detachIf_cases s.store k r.chunk with ⟨r', hr, -, he⟩ | ⟨hn, he⟩
      · let s' := ((s.onStore fun _ ↦ (s.store.detach k).2).onStore (·.discount r')).retire
          r'.chunk .size
        have hevict : s.engine.evict k r.chunk = (true, s'.engine) := by
          simp only [Engine.evict, he]
          rfl
        have htake : step s (take k r.chunk ⟨batch, evicted, cut⟩) =
            some (discount r' ⟨batch, evicted, cut⟩, s.onStore fun _ ↦ (s.store.detach k).2) := by
          simp only [step, he]
        obtain ⟨rest, u, hrun, heng, hsame, hev, hend⟩ := ih (s := s') (evicted + 1)
        have hbatch : s.engine.evictBatch s.store.targetWeight ((k, r) :: batch) =
            ((s'.engine.evictBatch s'.store.targetWeight batch).1 + 1,
              (s'.engine.evictBatch s'.store.targetWeight batch).2) := by
          simp only [Engine.evictBatch, hw, if_false, hevict, if_true]
          rfl
        rw [hbatch]
        refine ⟨rest, u, .head hpick (.head htake (.head rfl (.head rfl ?_))), heng,
          ⟨hsame.handles, hsame.readers⟩, hev, hend⟩
        rw [Nat.add_assoc, Nat.add_comm 1] at hrun
        exact hrun
      · have hevict : s.engine.evict k r.chunk = (false, s.engine) := by
          simp only [Engine.evict, he]
        have htake : step s (take k r.chunk ⟨batch, evicted, cut⟩) =
            some (pick ⟨batch, evicted, cut⟩, s) := by
          simp only [step, he]
          rfl
        have hbatch : s.engine.evictBatch s.store.targetWeight ((k, r) :: batch) =
            s.engine.evictBatch s.store.targetWeight batch := by
          simp only [Engine.evictBatch, hw, if_false, hevict, Bool.false_eq_true]
        rw [hbatch]
        obtain ⟨rest, u, hrun, hrest⟩ := ih (s := s) evicted
        exact ⟨rest, u, .head hpick (.head htake hrun), hrest⟩

theorem step_pick_of_done {rest : List (ChunkId × Resident)} {evicted : Nat} {cut : Bool}
    (hevicted : evicted ≠ 0) (hend : rest = [] ∨ s.store.weightedSize ≤ s.store.targetWeight) :
    step s (pick ⟨rest, evicted, cut⟩) = some (weigh, s) := by
  cases rest with
  | nil => simp [step, endBatch, hevicted]
  | cons v rest =>
    have hle := hend.resolve_left (List.cons_ne_nil _ _)
    simp [step, endBatch, hevicted, hle]

theorem weigh_rounds {rounds : Nat} (h : s.store.Coherent) (hb : s.store.batchSize ≠ 0)
    (hr : s.store.residents.length ≤ rounds) :
    ∃ s', Uninterrupted step (weigh, s) (left, s') ∧
      s'.engine = Engine.evictDown s.store.targetWeight rounds s.engine ∧ s.SameCallers s' ∧
      s'.evicting = false := by
  -- Each round of the pass is one of `evictDown`, and takes out one chunk at least.
  induction rounds generalizing s with
  | zero =>
    have hzero : s.store.weightedSize = 0 := by
      rw [h.weight, List.length_eq_zero_iff.1 (Nat.le_zero.1 hr), weightOf_nil]
    refine ⟨s.endPass, .single ?_, rfl, ⟨rfl, rfl⟩, rfl⟩
    simp [step, hzero]
  | succ rounds ih =>
    by_cases hw : s.store.weightedSize ≤ s.store.targetWeight
    · refine ⟨s.endPass, .single ?_, (Engine.evictDown_of_le hw _).symm, ⟨rfl, rfl⟩, rfl⟩
      simp [step, hw]
    have hweigh : step s weigh = some (collect 0 [], s) := by simp [step, hw]
    have hne := Engine.residents_ne_nil h (Nat.lt_of_not_le hw)
    have hpick : step s (collect s.store.slots.shardCount s.store.residents) =
        some (pick (batchOf s.store s.store.residents), s) := by
      simp [step, hne]
    obtain ⟨n, e', hround, hcoherent, hlength, hset⟩ :=
      Engine.evictBatch_candidates h hb (Nat.lt_of_not_le hw)
    obtain ⟨rest, u, hbatch, heng, hsame, -, hend⟩ :=
      pick_batch (s := s) s.store.candidates 0 (batchOf s.store s.store.residents).cut
    rw [hround] at hbatch heng
    simp only at hbatch heng
    have hstore : u.store = e'.store := congrArg Engine.store heng
    have htarget : u.store.targetWeight = s.store.targetWeight := by
      simp only [Store.targetWeight, Store.capacity, hstore, hset]
    have hbatchSize : u.store.batchSize ≠ 0 := by
      simpa only [Store.batchSize, hstore, hset] using hb
    obtain ⟨v, hrun, hv, hsame', hev⟩ := ih (s := u) (hstore ▸ hcoherent) hbatchSize
      (hstore ▸ Nat.le_of_lt_succ (Nat.lt_of_lt_of_le hlength hr))
    refine ⟨v, ?_, ?_, ⟨hsame'.handles.trans hsame.handles, hsame'.readers.trans hsame.readers⟩,
      hev⟩
    · have hagain : step u (pick ⟨rest, 0 + (n + 1), (batchOf s.store s.store.residents).cut⟩) =
          some (weigh, u) := step_pick_of_done (by omega) hend
      exact .head hweigh ((collect_all s).trans (.head hpick (hbatch.trans (.head hagain hrun))))
    · rw [hv, htarget, heng]
      simp only [Engine.evictDown, hw, if_false, hround]

/-- A pass over a table that nobody else touches ends, and has then done what it is for. -/
theorem uninterrupted (h : s.store.Coherent) (hb : s.store.batchSize ≠ 0)
    (hfree : s.evicting = false) :
    ∃ s', Uninterrupted step (compare, s) (left, s') ∧ s'.engine = s.engine.evictIfNeeded ∧
      s.SameCallers s' ∧ s'.evicting = false := by
  by_cases hw : s.store.weightedSize ≤ s.store.capacity.toNat
  · refine ⟨s, .single ?_, (Engine.evictIfNeeded_of_le hw).symm, ⟨rfl, rfl⟩, hfree⟩
    simp [step, hw]
  · let s₁ : Shared := { s with evicting := true }
    obtain ⟨u, hrun, heng, hsame, hev⟩ := weigh_rounds (s := s₁) h hb (Nat.le_refl _)
    have hcompare : step s compare = some (enter, s) := by simp [step, hw]
    have henter : step s enter = some (weigh, s₁) := by simp [step, hfree, s₁]
    refine ⟨u, .head hcompare (.head henter hrun), ?_, ⟨hsame.handles, hsame.readers⟩, hev⟩
    rw [heng, Engine.evictIfNeeded, if_neg hw]
    rfl

end Pass
end ReadCache
