import ReadCache.Store.Basic
import ReadCache.Proofs.ShardedMap

namespace ReadCache

/-- A resident chunk without its stamp. -/
structure Entry where
  key : ChunkId
  chunk : ChunkRef
  weight : Nat
  deriving DecidableEq, Repr

def Resident.entry (k : ChunkId) (r : Resident) : Entry := ⟨k, r.chunk, r.weight⟩

namespace Store

def entries (s : Store) : List Entry := s.residents.map fun (k, r) ↦ r.entry k

def residentWeight (s : Store) : Nat := (s.entries.map Entry.weight).sum

@[simp] theorem residentsOf_append (a b : List (ChunkId × Slot)) :
    residentsOf (a ++ b) = residentsOf a ++ residentsOf b := List.filterMap_append

@[simp] theorem residentsOf_nil : residentsOf [] = [] := rfl

@[simp] theorem residentsOf_resident (k : ChunkId) (r : Resident) (l : List (ChunkId × Slot)) :
    residentsOf ((k, .resident r) :: l) = (k, r) :: residentsOf l := rfl

@[simp] theorem residentsOf_loading (k : ChunkId) (t : Ticket) (l : List (ChunkId × Slot)) :
    residentsOf ((k, .loading t) :: l) = residentsOf l := rfl

theorem mem_residentsOf {l : List (ChunkId × Slot)} {k : ChunkId} {r : Resident} :
    (k, r) ∈ residentsOf l ↔ (k, .resident r) ∈ l := by
  simp only [residentsOf, List.mem_filterMap, Option.map_eq_some_iff, Prod.mk.injEq]
  constructor
  · rintro ⟨⟨k', slot⟩, hm, r', hr, rfl, rfl⟩
    cases slot with
    | resident x => cases hr; exact hm
    | loading t => cases hr
  · exact fun hm ↦ ⟨_, hm, r, rfl, rfl, rfl⟩

variable {s : Store} {k : ChunkId}

theorem mem_residents (h : s.slots.Proper) {r : Resident} :
    (k, r) ∈ s.residents ↔ s.slots.get? k = some (.resident r) :=
  mem_residentsOf.trans h.get?_eq_some_iff.symm

theorem nodup_keys_residents (h : s.slots.Proper) : (s.residents.map Prod.fst).Nodup := by
  have hsub (l : List (ChunkId × Slot)) :
      ((residentsOf l).map Prod.fst).Sublist (l.map Prod.fst) := by
    induction l with
    | nil => exact .slnil
    | cons b l ih =>
      obtain ⟨k, r | t⟩ := b
      · exact ih.cons_cons k
      · exact ih.cons k
  exact h.nodup.sublist (hsub s.slots.toList)

theorem mem_entries {e : Entry} : e ∈ s.entries ↔ ∃ k r, (k, r) ∈ s.residents ∧ r.entry k = e := by
  simp [entries]

theorem create?_eq {settings : Settings} {hash : ChunkId → UInt64}
    (h : create? settings hash = some s) :
    s = { settings, slots := .empty hash settings.shardCount.toNat } := by
  simp only [create?, ShardedMap.create?] at h
  split at h
  · exact (Option.some.inj h).symm
  · cases h

theorem proper_create? {settings : Settings} {hash : ChunkId → UInt64}
    (h : create? settings hash = some s) : s.slots.Proper := by
  rw [create?_eq h]
  exact ShardedMap.proper_empty _ _

theorem residents_create? {settings : Settings} {hash : ChunkId → UInt64}
    (h : create? settings hash = some s) : s.residents = [] := by
  rw [create?_eq h]
  simp [residents, ShardedMap.toList_empty]

theorem entries_touch (h : s.slots.Proper) {r : Resident}
    (hr : s.slots.get? k = some (.resident r)) : (s.touch k r).entries = s.entries := by
  unfold touch
  split
  · obtain ⟨a, b, hab, hinsert, -⟩ := h.split_of_get?_some hr
    simp only [entries, residents, hinsert, hab]
    simp [Resident.entry]
  · rfl

theorem proper_touch (h : s.slots.Proper) (r : Resident) : (s.touch k r).slots.Proper := by
  unfold touch
  split
  · exact h.insert _ _
  · exact h

theorem find?_cases (s : Store) (k : ChunkId) :
    (∃ r, s.slots.get? k = some (.resident r) ∧ s.find? k = (some (.hit r.chunk), s.touch k r)) ∨
    (∃ t, s.slots.get? k = some (.loading t) ∧ s.find? k = (some (.wait t), s)) ∨
    (s.slots.get? k = none ∧ s.find? k = (none, s)) := by
  unfold find?
  rcases hs : s.slots.get? k with _ | (r | t)
  · exact .inr (.inr ⟨rfl, rfl⟩)
  · exact .inl ⟨r, rfl, rfl⟩
  · exact .inr (.inl ⟨t, rfl, rfl⟩)

theorem claim_cases (s : Store) (k : ChunkId) :
    (∃ r, s.slots.get? k = some (.resident r) ∧ s.claim k = (.hit r.chunk, s.touch k r)) ∨
    (∃ t, s.slots.get? k = some (.loading t) ∧ s.claim k = (.wait t, s)) ∨
    (s.slots.get? k = none ∧ s.claim k = (.load s.results.size,
      { s with
        slots := s.slots.insert k (.loading s.results.size)
        results := s.results.push none })) := by
  unfold claim
  rcases find?_cases s k with ⟨r, hr, he⟩ | ⟨t, ht, he⟩ | ⟨hn, he⟩ <;> rw [he]
  · exact .inl ⟨r, hr, rfl⟩
  · exact .inr (.inl ⟨t, ht, rfl⟩)
  · exact .inr (.inr ⟨hn, rfl⟩)

theorem claim_of_free (hn : s.slots.get? k = none) :
    s.claim k = (.load s.results.size,
      { s with
        slots := s.slots.insert k (.loading s.results.size)
        results := s.results.push none }) := by
  simp only [claim, find?, hn]

theorem proper_find? (h : s.slots.Proper) (k : ChunkId) : (s.find? k).2.slots.Proper := by
  rcases find?_cases s k with ⟨r, -, he⟩ | ⟨t, -, he⟩ | ⟨-, he⟩ <;> rw [he]
  · exact proper_touch h r
  · exact h
  · exact h

theorem proper_claim (h : s.slots.Proper) (k : ChunkId) : (s.claim k).2.slots.Proper := by
  rcases claim_cases s k with ⟨r, -, he⟩ | ⟨t, -, he⟩ | ⟨-, he⟩ <;> rw [he]
  · exact proper_touch h r
  · exact h
  · exact h.insert _ _

theorem entries_claim (h : s.slots.Proper) (k : ChunkId) : (s.claim k).2.entries = s.entries := by
  rcases claim_cases s k with ⟨r, hr, he⟩ | ⟨t, -, he⟩ | ⟨hn, he⟩ <;> rw [he]
  · exact entries_touch h hr
  · obtain ⟨a, b, hab, hinsert⟩ := h.insert_free hn
    simp [entries, residents, hinsert, hab]

/-- Nothing changes but slots, counts and results. -/
structure Alike (s s' : Store) : Prop where
  weightedSize : s'.weightedSize = s.weightedSize
  settings : s'.settings = s.settings
  home : s'.slots.home = s.slots.home

theorem Alike.refl (s : Store) : s.Alike s := ⟨rfl, rfl, rfl⟩

theorem Alike.insert (s : Store) (k : ChunkId) (slot : Slot) :
    s.Alike { s with slots := s.slots.insert k slot } := ⟨rfl, rfl, ShardedMap.home_insert _ _ _⟩

theorem Alike.erase (s : Store) (k : ChunkId) : s.Alike { s with slots := s.slots.erase k } :=
  ⟨rfl, rfl, ShardedMap.home_erase _ _⟩

theorem alike_touch (s : Store) (k : ChunkId) (r : Resident) : s.Alike (s.touch k r) := by
  unfold touch
  split
  · exact .insert s k _
  · exact .refl s

theorem alike_claim (s : Store) (k : ChunkId) : s.Alike (s.claim k).2 := by
  rcases claim_cases s k with ⟨r, -, he⟩ | ⟨t, -, he⟩ | ⟨-, he⟩ <;> rw [he]
  · exact alike_touch s k r
  · exact .refl s
  · exact ⟨rfl, rfl, ShardedMap.home_insert _ _ _⟩

theorem owns_iff {t : Ticket} : s.owns k t = true ↔ s.slots.get? k = some (.loading t) := by
  simp [owns]

theorem settle_cases (s : Store) (k : ChunkId) (t : Ticket) (c : ChunkRef) (w : Nat) :
    (s.owns k t = true ∧ (s.settle k t c w).1 = true) ∨
    (s.owns k t = false ∧ s.settle k t c w = (false, s)) := by
  unfold settle
  cases ho : s.owns k t
  · exact .inr ⟨rfl, rfl⟩
  · exact .inl ⟨rfl, rfl⟩

theorem proper_settle (h : s.slots.Proper) (t : Ticket) (c : ChunkRef) (w : Nat) :
    (s.settle k t c w).2.slots.Proper := by
  unfold settle
  split
  · exact h.insert _ _
  · exact h

theorem entries_settle (h : s.slots.Proper) {t : Ticket} {c : ChunkRef} {w : Nat}
    (ho : s.owns k t = true) :
    (s.settle k t c w).2.entries.Perm (⟨k, c, w⟩ :: s.entries) := by
  obtain ⟨a, b, hab, hinsert, -⟩ := h.split_of_get?_some (owns_iff.1 ho)
  simp only [settle, ho, if_true, entries, residents, hinsert, hab]
  simp [Resident.entry]

theorem proper_clearLoad (h : s.slots.Proper) (t : Ticket) : (s.clearLoad k t).slots.Proper := by
  unfold clearLoad
  split
  · exact h.erase _
  · exact h

theorem alike_clearLoad (s : Store) (k : ChunkId) (t : Ticket) : s.Alike (s.clearLoad k t) := by
  unfold clearLoad
  split
  · exact .erase s k
  · exact .refl s

theorem entries_clearLoad (h : s.slots.Proper) (t : Ticket) :
    (s.clearLoad k t).entries = s.entries := by
  unfold clearLoad
  split
  · rename_i ho
    obtain ⟨a, b, hab, -, herase⟩ := h.split_of_get?_some (owns_iff.1 ho)
    simp [entries, residents, herase, hab]
  · rfl

theorem residents_detach (h : s.slots.Proper) {r : Resident}
    (hr : s.slots.get? k = some (.resident r)) :
    s.residents.Perm ((k, r) :: (s.detach k).2.residents) := by
  obtain ⟨a, b, hab, -, herase⟩ := h.split_of_get?_some hr
  simp only [detach, residents, herase, hab]
  simp

theorem entries_detach (h : s.slots.Proper) {r : Resident}
    (hr : s.slots.get? k = some (.resident r)) :
    s.entries.Perm (r.entry k :: (s.detach k).2.entries) :=
  (residents_detach h hr).map _

theorem entries_detach_of_not_resident (h : s.slots.Proper)
    (hn : ∀ r, s.slots.get? k ≠ some (.resident r)) : (s.detach k).2.entries = s.entries := by
  rcases hk : s.slots.get? k with _ | (r | t)
  · simp [detach, entries, residents, h.erase_free hk]
  · exact absurd hk (hn r)
  · obtain ⟨a, b, hab, -, herase⟩ := h.split_of_get?_some hk
    simp [detach, entries, residents, herase, hab]

theorem detachIf_cases (s : Store) (k : ChunkId) (c : ChunkRef) :
    (∃ r, s.slots.get? k = some (.resident r) ∧ r.chunk = c ∧
      s.detachIf k c = (some r, (s.detach k).2)) ∨
    ((∀ r, s.slots.get? k = some (.resident r) → r.chunk ≠ c) ∧ s.detachIf k c = (none, s)) := by
  unfold detachIf
  rcases hk : s.slots.get? k with _ | (r | t)
  · exact .inr ⟨by simp, rfl⟩
  · by_cases hc : r.chunk = c
    · exact .inl ⟨r, rfl, hc, by simp [hc, detach]⟩
    · refine .inr ⟨fun r' hr' ↦ ?_, by simp [hc]⟩
      cases hr'
      exact hc
  · exact .inr ⟨by simp, rfl⟩

theorem residents_filter_split (a : List (ChunkId × Slot)) (p : ChunkId → Bool) :
    (residentsOf a).Perm
      (residentsOf (a.filter fun b ↦ p b.1) ++ residentsOf (a.filter fun b ↦ !p b.1)) := by
  have hp : a.Perm (a.filter (fun b ↦ p b.1) ++ a.filter fun b ↦ !p b.1) :=
    (List.filter_append_perm _ a).symm
  rw [← residentsOf_append]
  exact hp.filterMap _

theorem alike_detach (s : Store) (k : ChunkId) : s.Alike (s.detach k).2 := .erase s k

theorem alike_detachMatching (s : Store) (i : Nat) (p : ChunkId → Bool) :
    s.Alike (s.detachMatching i p).2 := ⟨rfl, rfl, funext fun k ↦ ShardedMap.home_setShard _ _ _ k⟩

def matching (s : Store) (i : Nat) (p : ChunkId → Bool) : List (ChunkId × Resident) :=
  residentsOf ((s.slots.shard i).filter fun b ↦ p b.1)

theorem residents_detachMatching (s : Store) {i : Nat} (hi : i < s.slots.shardCount)
    (p : ChunkId → Bool) :
    s.residents.Perm (s.matching i p ++ (s.detachMatching i p).2.residents) := by
  obtain ⟨a, b, hab, hset⟩ := ShardedMap.toList_split hi
  have hp := residents_filter_split (s.slots.shard i) p
  simp only [residents, detachMatching, hset, hab, residentsOf_append, matching]
  refine ((hp.append_left _).append_right _).trans ?_
  simp only [List.append_assoc]
  exact (List.perm_append_comm_assoc _ _ _)

theorem entries_detachMatching (s : Store) {i : Nat} (hi : i < s.slots.shardCount)
    (p : ChunkId → Bool) :
    s.entries.Perm
      ((s.matching i p).map (fun b ↦ b.2.entry b.1) ++ (s.detachMatching i p).2.entries) := by
  simpa [entries] using (residents_detachMatching s hi p).map fun b ↦ b.2.entry b.1

theorem proper_detach (h : s.slots.Proper) (k : ChunkId) : (s.detach k).2.slots.Proper := h.erase k

theorem proper_detachMatching (h : s.slots.Proper) (i : Nat) (p : ChunkId → Bool) :
    (s.detachMatching i p).2.slots.Proper := h.filterShard i _

end Store
end ReadCache
