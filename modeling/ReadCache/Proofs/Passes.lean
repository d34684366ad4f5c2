import ReadCache.Proofs.Origins
import ReadCache.Proofs.Overcounting
import ReadCache.Proofs.Sequential

namespace ReadCache
namespace Traffic
variable {t u : Traffic} {log : List Tick}

/-- What a pass comes to with nothing else in progress. -/
structure PassesByAge (u : Traffic) : Prop where
  ends : ∃ s, Uninterrupted Pass.step (.compare, u.shared) (.left, s) ∧
    s.engine = u.shared.engine.evictIfNeeded
  within : u.shared.store.weightedSize ≤ u.shared.store.capacity.toNat →
    u.shared.engine.evictIfNeeded = u.shared.engine
  evicts : u.shared.store.capacity.toNat < u.shared.store.weightedSize →
    u.shared.engine.EvictsByAge u.shared.engine.evictIfNeeded
  /-- Every order by age is the one that some pass goes by. -/
  ties : u.shared.store.capacity.toNat < u.shared.store.weightedSize →
    ∀ order, order.Perm u.shared.store.residents → ByAge order →
      ∃ ties, (u.shared.engine.withTies ties).EvictsFirst order
        (u.shared.engine.withTies ties).evictIfNeeded
  batches : (u.shared.store.residents.map (·.2.lastAccess)).Nodup → ∀ n ≠ 0,
    (u.shared.engine.withBatch n).evictIfNeeded = u.shared.engine.evictIfNeeded.withBatch n

def LosesReferences (u : Traffic) : Prop :=
  ∀ v ∈ u.shared.store.residents,
    u.shared.engine.evictIfNeeded.store.slots.get? v.1 = none →
    ∃ chunk chunk', u.shared.memory.chunk? v.2.chunk = some chunk ∧
      u.shared.engine.evictIfNeeded.memory.chunk? v.2.chunk = some chunk' ∧
      chunk'.references.toNat + 1 = chunk.references.toNat

theorem losesReferences_of_accounted (ha : u.Accounted) (hp : u.PassesByAge) :
    u.LosesReferences := by
  intro v hv hgone
  obtain ⟨chunk, hc, hz⟩ := referenced_of_resident ha hv
  by_cases ho : u.shared.store.weightedSize ≤ u.shared.store.capacity.toNat
  · rw [hp.within ho, (Store.mem_residents ha.proper).1 hv] at hgone
    cases hgone
  · have hvictim := (hp.evicts (Nat.lt_of_not_le ho)).victim ha.proper hv hgone
    rw [show u.shared.engine.memory.chunk? v.2.chunk = some chunk from hc] at hvictim
    exact ⟨chunk, chunk.unreference.2, hc, hvictim, Engine.references_unreference hz⟩

theorem passesByAge_of_records (ht : t.Initial) (hb : t.shared.store.batchSize ≠ 0)
    (h : Records t log u) (hun : u.Undisturbed) : u.PassesByAge := by
  have hreach : t.Reaches (fun _ ↦ True) u := h.reachable
  have hweighed := weighed_of_initial ht
  have hcoherent := coherent_of_undisturbed (weighed_of_reaches hweighed hreach) hun
  have hkept := h.kept ht
  have hbatch : u.shared.store.batchSize ≠ 0 := by
    simpa only [Store.batchSize, settings_of_reaches hweighed hreach] using hb
  constructor
  case ends =>
    obtain ⟨s, hrun, heng, -, -⟩ := Pass.uninterrupted hcoherent hbatch hun.free
    exact ⟨s, hrun, heng⟩
  case within => exact Engine.evictIfNeeded_of_le
  case evicts => exact Engine.evictsByAge_evictIfNeeded hcoherent hkept hbatch
  case ties =>
    intro ho order hp hage
    exact ⟨_, Engine.evictsFirst_inOrder hcoherent hkept hbatch ho hp hage⟩
  case batches => exact fun hl n hn ↦ Engine.evictIfNeeded_withBatch hcoherent hbatch hl hn

/-- An eviction pass with nothing else in progress comes to an end, leaves all as it is where the
weight is within the capacity, and evicts the shortest prefix of the residents by age where it is
not; the size of the batches makes no difference but to ties, in which any order may be taken. What
it takes out has one reference less, as long as there were never more handles than a count can tell.
In sequential runs the weight is therefore never above both capacity and target, other than in the
middle of a call. -/
theorem eviction_by_age (ht : t.Initial) (hb : t.shared.store.batchSize ≠ 0) :
    (∀ log u, Records t log u → u.Undisturbed → u.PassesByAge ∧
      ((∀ x ∈ log, x.after.Modest) → u.LosesReferences)) ∧
    ∀ u, t.Nested u → u.Between →
      u.shared.store.weightedSize ≤
        max u.shared.store.capacity.toNat u.shared.store.targetWeight := by
  refine ⟨fun log u hu hun ↦ ?_, fun u hu hbetween ↦ bounded_of_nested ht hb hu hbetween⟩
  have hpasses := passesByAge_of_records ht hb hu hun
  refine ⟨hpasses, fun hmodest ↦ losesReferences_of_accounted ?_ hpasses⟩
  exact accounted_of_reaches (accounted_of_initial ht) (hu.reaches hmodest)

def crowdedByTwo : List Move := loadSmall 0 "a" 6 8 ++ .reference 0 :: loadSmall 1 "b" 5 6

def theTwo : List (ChunkId × Resident) :=
  [((smallFile "a" 6).chunkId 0, ⟨0, 6, 0⟩), ((smallFile "b" 5).chunkId 0, ⟨1, 5, 1⟩)]

structure HasTheTwo (u : Traffic) : Prop where
  undisturbed : u.Undisturbed
  residents : u.shared.store.residents = theTwo
  batchSize : u.shared.store.batchSize ≠ 0
  capacity : u.shared.store.capacity.toNat = 10
  targetWeight : u.shared.store.targetWeight = 10

theorem exists_hasTheTwo : ∃ t u log, t.Initial ∧ Records t log u ∧ u.HasTheTwo ∧
    t.shared.store.batchSize ≠ 0 ∧ u.shared.handles = [⟨0, none⟩] ∧
    (u.shared.memory.chunk? 0).map Chunk.references = some 2 ∧
    ∀ x ∈ log, x.after.shared.handles.length ≤ 1 := by
  obtain ⟨t, u, log, ht, hrec, hheld, howes, hfree, hresidents, hbatch, hcapacity, htarget, hrest⟩ :=
    exists_of_record tight ChunkId.hash crowdedByTwo
      (fun log u ↦ u.held = [] ∧ u.owes = 0 ∧ u.shared.evicting = false ∧
        u.shared.store.residents = theTwo ∧ u.shared.store.batchSize ≠ 0 ∧
        u.shared.store.capacity.toNat = 10 ∧ u.shared.store.targetWeight = 10 ∧
        u.shared.handles = [⟨0, none⟩] ∧ (u.shared.memory.chunk? 0).map Chunk.references = some 2 ∧
        ∀ x ∈ log, x.after.shared.handles.length ≤ 1)
      (by decide +kernel)
  have hset := settings_of_reaches (weighed_of_initial ht) hrec.reachable
  refine ⟨t, u, log, ht, hrec, ⟨⟨hheld, howes, hfree⟩, hresidents, hbatch, hcapacity, htarget⟩, ?_,
    hrest⟩
  simpa only [Store.batchSize, hset] using hbatch

theorem HasTheTwo.passes (h : u.HasTheTwo) (hw : u.Weighed) :
    u.shared.store.capacity.toNat < u.shared.store.weightedSize ∧
      u.shared.engine.evictIfNeeded.store.slots.get? ((smallFile "a" 6).chunkId 0) = none := by
  have hcoherent := coherent_of_undisturbed hw h.undisturbed
  have hweight : u.shared.store.weightedSize = 11 := by
    rw [hcoherent.weight, h.residents]
    rfl
  have ho : u.shared.store.capacity.toNat < u.shared.store.weightedSize := by
    rw [h.capacity, hweight]
    decide
  refine ⟨ho, ?_⟩
  obtain ⟨order, hp, hage, he⟩ := Engine.evictIfNeeded_eq hcoherent h.batchSize ho
  rw [h.residents] at hp
  obtain rfl : order = theTwo :=
    Engine.byAge_unique hp (.refl _) hage (by simp [ByAge, theTwo]) (by decide)
  rw [he, h.targetWeight, hweight]
  exact (Engine.get?_eraseAll hw.proper _ _).trans (if_pos List.mem_cons_self)

theorem eviction_by_age_of_two :
    ∃ t u : Traffic, t.Initial ∧
      u.shared.store.capacity.toNat < u.shared.store.weightedSize ∧
      u.shared.engine.EvictsByAge u.shared.engine.evictIfNeeded ∧
      u.shared.engine.evictIfNeeded.store.slots.get? ((smallFile "a" 6).chunkId 0) = none ∧
      u.LosesReferences ∧
      ∀ v, t.Nested v → v.Between → v.shared.store.weightedSize ≤
        max v.shared.store.capacity.toNat v.shared.store.targetWeight := by
  obtain ⟨t, u, log, ht, hrec, htwo, hbatch, -, -, hlog⟩ := exists_hasTheTwo
  have hweighed := weighed_of_reaches (weighed_of_initial ht) hrec.reachable
  have hmodest : ∀ x ∈ log, x.after.Modest := by
    intro x hx
    have hfew := hlog x hx
    exact modest_of_few (Nat.lt_of_le_of_lt (Nat.succ_le_succ hfew) (by decide))
  obtain ⟨ho, hgone⟩ := htwo.passes hweighed
  have hage := eviction_by_age ht hbatch
  obtain ⟨hpasses, hloses⟩ := hage.1 log u hrec htwo.undisturbed
  exact ⟨t, u, ht, ho, hpasses.evicts ho, hgone, hloses hmodest, hage.2⟩

/-- The handle on the first of the two is shared until the count of its chunk is back at zero. Then
the pass takes the chunk out of the table, and its count stays where it is. -/
theorem evicted_without_reference :
    ∃ (t u : Traffic) (log : List Tick) (v : ChunkId × Resident) (chunk : Chunk), t.Initial ∧
      t.shared.store.batchSize ≠ 0 ∧ Records t log u ∧ u.Undisturbed ∧
      v ∈ u.shared.store.residents ∧ u.handlesOn v.2.chunk = UInt32.size - 1 ∧
      u.shared.engine.evictIfNeeded.store.slots.get? v.1 = none ∧
      u.shared.memory.chunk? v.2.chunk = some chunk ∧
      u.shared.engine.evictIfNeeded.memory.chunk? v.2.chunk = some chunk := by
  obtain ⟨t, u, log, ht, hrec, htwo, hbatch, hhandles, href, -⟩ := exists_hasTheTwo
  -- How often it is shared stays a variable, so that nothing counts up to it.
  obtain ⟨n, hn⟩ : ∃ n, n + 2 = UInt32.size := ⟨UInt32.size - 2, by decide⟩
  obtain ⟨shares, chunk, hshares, -, hmany, hc, hcount⟩ := exists_shares hhandles href n
  have hall := hrec.append hshares
  have hcrowded : (u.shareMany ⟨0, none⟩ n).HasTheTwo :=
    ⟨⟨htwo.undisturbed.held, htwo.undisturbed.owes, htwo.undisturbed.free⟩, htwo.residents,
      htwo.batchSize, htwo.capacity, htwo.targetWeight⟩
  generalize u.shareMany ⟨0, none⟩ n = v at *
  have hweighed := weighed_of_reaches (weighed_of_initial ht) hall.reachable
  have hv : ((smallFile "a" 6).chunkId 0, ⟨0, 6, 0⟩) ∈ v.shared.store.residents := by
    rw [hcrowded.residents]
    exact List.mem_cons_self
  obtain ⟨ho, hgone⟩ := hcrowded.passes hweighed
  have hpasses := passesByAge_of_records ht hbatch hall hcrowded.undisturbed
  have hvictim := (hpasses.evicts ho).victim hweighed.proper hv hgone
  refine ⟨t, v, _, _, _, ht, hbatch, hall, hcrowded.undisturbed, hv, ?_, hgone, hc, ?_⟩
  · exact hmany.trans (Nat.eq_sub_of_add_eq (hn ▸ rfl))
  refine hvictim.trans ?_
  rw [show v.shared.engine.memory.chunk? 0 = some chunk from hc, Option.map_some,
    Chunk.unreference_of_none (hcount.trans (UInt32.ofNat_eq_zero hn))]

end Traffic
end ReadCache
