import ReadCache.Proofs.Entries

namespace ReadCache

/-- What takes up a slot. Stamps do not matter here. -/
inductive Occupant where
  | resident (chunk : ChunkRef) (weight : Nat)
  | loading (ticket : Ticket)
  deriving DecidableEq, Repr

def Slot.occupant : Slot → Occupant
  | resident r => .resident r.chunk r.weight
  | loading t => .loading t

namespace Store

abbrev Occupants := ChunkId → Option Occupant

abbrev Results := Array (Option (Except Error ChunkRef))

def occupant? (s : Store) : Occupants := fun k ↦ (s.slots.get? k).map Slot.occupant

def Occupants.free (f : Occupants) (keys : ChunkId → Bool) : Occupants :=
  fun k ↦ if keys k then none else f k

/-- A step after which the slots are occupied in that way and the loads came to those results. -/
structure Becomes (s s' : Store) (occupants : Occupants) (results : Results) : Prop where
  proper : s'.slots.Proper
  occupants : s'.occupant? = occupants
  results : s'.results = results
  home : s'.slots.home = s.slots.home
  shardCount : s'.slots.shardCount = s.slots.shardCount

/-- A step that nobody can tell from none. -/
abbrev Stays (s s' : Store) : Prop := s.Becomes s' s.occupant? s.results

/-- A step that frees the slots of some keys. -/
abbrev Frees (s s' : Store) (keys : ChunkId → Bool) : Prop :=
  s.Becomes s' (Occupants.free s.occupant? keys) s.results

variable {s s' s'' : Store} {k k' : ChunkId} {t t' : Ticket} {c : ChunkRef} {w : Nat}
variable {occupants : Occupants} {results : Results}

theorem occupant?_of_slots (h : s'.slots = s.slots) : s'.occupant? = s.occupant? := by
  funext k
  rw [occupant?, occupant?, h]

theorem occupant?_eq_none : s.occupant? k = none ↔ s.slots.get? k = none := by
  simp [occupant?]

theorem occupant?_eq_loading :
    s.occupant? k = some (.loading t) ↔ s.slots.get? k = some (.loading t) := by
  rw [occupant?]
  rcases s.slots.get? k with _ | (r | u) <;> simp [Slot.occupant]

theorem occupant?_eq_resident : s.occupant? k = some (.resident c w) ↔
    ∃ r, s.slots.get? k = some (.resident r) ∧ r.chunk = c ∧ r.weight = w := by
  rw [occupant?]
  rcases s.slots.get? k with _ | (r | u) <;> simp [Slot.occupant]

theorem occupant?_of_resident {r : Resident} (h : s.slots.get? k = some (.resident r)) :
    s.occupant? k = some (.resident r.chunk r.weight) :=
  occupant?_eq_resident.2 ⟨r, h, rfl, rfl⟩

theorem owns_iff_occupant? : s.owns k t = true ↔ s.occupant? k = some (.loading t) :=
  owns_iff.trans occupant?_eq_loading.symm

theorem mem_residents_iff_occupant? (h : s.slots.Proper) :
    (∃ r, (k, r) ∈ s.residents ∧ r.chunk = c ∧ r.weight = w) ↔
      s.occupant? k = some (.resident c w) := by
  simp only [mem_residents h, occupant?_eq_resident]

theorem lt_of_result? {r : Except Error ChunkRef} (h : s.result? t = some r) :
    t < s.results.size := by
  by_contra hge
  rw [result?, Array.getElem?_eq_none (Nat.le_of_not_lt hge)] at h
  cases h

theorem result?_of_results (h : s'.results = s.results) : s'.result? = s.result? := by
  funext t
  rw [result?, result?, h]

theorem Becomes.of_slots (hp : s.slots.Proper) (hslots : s'.slots = s.slots)
    (hresults : s'.results = results) : s.Becomes s' s.occupant? results :=
  ⟨hslots ▸ hp, occupant?_of_slots hslots, hresults, by rw [hslots], by rw [hslots]⟩

theorem Stays.trans (h : s.Stays s') (h' : s'.Becomes s'' occupants results) :
    s.Becomes s'' occupants results :=
  ⟨h'.proper, h'.occupants, h'.results, h'.home.trans h.home, h'.shardCount.trans h.shardCount⟩

theorem Becomes.stays (h : s.Becomes s' occupants results) (h' : s'.Stays s'') :
    s.Becomes s'' occupants results :=
  ⟨h'.proper, h'.occupants.trans h.occupants, h'.results.trans h.results, h'.home.trans h.home,
    h'.shardCount.trans h.shardCount⟩

theorem stays_refl (hp : s.slots.Proper) : s.Stays s := .of_slots hp rfl rfl

theorem Frees.of_stays (h : s.Stays s') : s.Frees s' fun _ ↦ false :=
  ⟨h.proper, h.occupants.trans (funext fun _ ↦ by simp [Occupants.free]), h.results, h.home,
    h.shardCount⟩

theorem becomes_insert (hp : s.slots.Proper) (k : ChunkId) (slot : Slot)
    (hslots : s'.slots = s.slots.insert k slot) (hresults : s'.results = results) :
    s.Becomes s' (Function.update s.occupant? k (some slot.occupant)) results where
  proper := hslots ▸ hp.insert k slot
  occupants := by
    funext k'
    rw [occupant?, hslots, Function.update_apply]
    split
    · subst k'
      rw [ShardedMap.get?_insert_self hp.shards_pos]
      rfl
    · rename_i hne
      rw [ShardedMap.get?_insert_ne _ _ (Ne.symm hne)]
      rfl
  results := hresults
  home := by rw [hslots, ShardedMap.home_insert]
  shardCount := by rw [hslots, ShardedMap.shardCount_insert]

theorem frees_erase (hp : s.slots.Proper) (k : ChunkId) (hslots : s'.slots = s.slots.erase k)
    (hresults : s'.results = s.results) : s.Frees s' fun k' ↦ k' = k where
  proper := hslots ▸ hp.erase k
  occupants := by
    funext k'
    rw [occupant?, hslots, Occupants.free]
    by_cases he : k' = k
    · subst he
      simp [ShardedMap.get?_erase_self hp.shards_pos]
    · simp [he, ShardedMap.get?_erase_ne _ (Ne.symm he), occupant?]
  results := hresults
  home := by rw [hslots, ShardedMap.home_erase]
  shardCount := by rw [hslots, ShardedMap.shardCount_erase]

theorem stays_touch (hp : s.slots.Proper) {r : Resident}
    (hr : s.slots.get? k = some (.resident r)) : s.Stays (s.touch k r) := by
  unfold touch
  split
  · have hsame : Function.update s.occupant? k (some (.resident r.chunk r.weight)) = s.occupant? :=
      Function.update_eq_self_iff.2 (occupant?_of_resident hr).symm
    change s.Becomes _ s.occupant? _
    rw [← hsame]
    exact becomes_insert hp k (.resident { r with lastAccess := s.clock }) rfl rfl
  · exact stays_refl hp

theorem becomes_settle (hp : s.slots.Proper) (ho : s.owns k t = true) (c : ChunkRef) (w : Nat) :
    s.Becomes (s.settle k t c w).2 (Function.update s.occupant? k (some (.resident c w)))
      s.results := by
  simp only [settle, ho, if_true]
  exact becomes_insert hp k (.resident ⟨c, w, s.clock⟩) rfl rfl

theorem frees_clearLoad (hp : s.slots.Proper) (k : ChunkId) (t : Ticket) :
    s.Frees (s.clearLoad k t) fun k' ↦ k' = k && s.occupant? k = some (.loading t) := by
  unfold clearLoad
  split
  · rename_i ho
    have h : s.Frees { s with slots := s.slots.erase k } fun k' ↦ k' = k := frees_erase hp k rfl rfl
    simpa [owns_iff_occupant?.1 ho] using h
  · rename_i hn
    rw [owns_iff_occupant?] at hn
    simpa [hn] using Frees.of_stays (stays_refl hp)

theorem frees_detach (hp : s.slots.Proper) (k : ChunkId) :
    s.Frees (s.detach k).2 fun k' ↦ k' = k := frees_erase hp k rfl rfl

theorem frees_detachMatching (hp : s.slots.Proper) (i : Nat) (matches? : ChunkId → Bool) :
    s.Frees (s.detachMatching i matches?).2 fun k ↦ s.slots.home k = i && matches? k where
  proper := proper_detachMatching hp i matches?
  occupants := by
    funext k
    rw [occupant?, detachMatching,
      ShardedMap.get?_filterShard hp.shards_pos i (fun k ↦ !matches? k)]
    cases hm : matches? k <;> by_cases hi : s.slots.home k = i <;>
      simp [Occupants.free, occupant?, hm, hi]
  results := rfl
  home := (alike_detachMatching s i matches?).home
  shardCount := ShardedMap.shardCount_setShard _ _ _

theorem result?_of_push (h : s'.results = s.results.push none) : s'.result? = s.result? := by
  funext t
  rw [result?, result?, h, Array.getElem?_push]
  split
  · rename_i he
    rw [Array.getElem?_eq_none (Nat.le_of_eq he.symm)]
    rfl
  · rfl

theorem result?_of_set {r : Except Error ChunkRef}
    (h : s'.results = s.results.setIfInBounds t (some r)) (ht : t < s.results.size)
    (t' : Ticket) : s'.result? t' = if t' = t then some r else s.result? t' := by
  rw [result?, result?, h, Array.getElem?_setIfInBounds]
  by_cases he : t' = t
  · subst he
    simp [ht]
  · simp [he, Ne.symm he]

end Store
end ReadCache
