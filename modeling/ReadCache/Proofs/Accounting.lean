import ReadCache.Proofs.Budget
import ReadCache.Proofs.Transitions

namespace ReadCache

namespace Memory

def Measures (m : Memory) (c : ChunkRef) (w : Nat) : Prop :=
  ∃ chunk, m.chunk? c = some chunk ∧ chunk.capacity = w

def capacity (m : Memory) (c : ChunkRef) : Nat := ((m.chunk? c).map Chunk.capacity).getD 0

variable {m m' : Memory} {c : ChunkRef} {w : Nat}

theorem Measures.mono (h : m.Measures c w) (hm : m.Ages m') : m'.Measures c w := by
  obtain ⟨chunk, hc, hw⟩ := h
  obtain ⟨chunk', hc', hage⟩ := hm c chunk hc
  exact ⟨chunk', hc', hage.capacity.trans hw⟩

theorem Measures.capacity_eq (h : m.Measures c w) : m.capacity c = w := by
  obtain ⟨chunk, hc, rfl⟩ := h
  simp [capacity, hc]

end Memory

def Shared.residentCapacity (s : Shared) : Nat :=
  (s.store.residents.map fun b ↦ s.memory.capacity b.2.chunk).sum

def Call.carries? : Call → Option (ChunkRef × Nat)
  | get _ _ _ (.settle _ chunk weight) => some (chunk, weight)
  | _ => none

section
variable {s s' : Shared} {x x' : Call}

theorem Call.Goes.carries {c : ChunkRef} {w : Nat} (h : Goes s x x' s')
    (hx : x'.carries? = some (c, w)) : s'.memory.Measures c w := by
  cases h with
  | stage h =>
    cases h with
    | arrive _ hw =>
      cases hx
      obtain ⟨chunk, hc, hcapacity, -⟩ := hw
      exact ⟨chunk, hc, hcapacity⟩
    | @publish t chunk settled s' _ => cases settled <;> cases hx
    | _ => cases hx
  | _ => cases hx

theorem Call.Goes.unpaid {r : Resident} (h : Goes s x x' s') (hr : r ∈ x'.unpaid) :
    r ∈ x.unpaid ∨ ∃ k, s.store.occupant? k = some (.resident r.chunk r.weight) := by
  have hout {keys : ChunkId → Bool} {before after : List Resident} {held held' : List ChunkRef}
      (hrem : s.Removes s' keys before after held held') (hr : r ∈ after) :
      r ∈ before ∨ ∃ k, s.store.occupant? k = some (.resident r.chunk r.weight) :=
    (hrem.out r hr).imp_right fun ⟨k, _, hk⟩ ↦ ⟨k, hk⟩
  cases h with
  | stage h =>
    cases h with
    | pass h => exact hout h hr
    | @publish t chunk settled s' _ => cases settled <;> cases hr
    | _ => cases hr
  | invalidate h | sweep h | evict h => exact hout h hr
  | _ => cases hr

theorem Call.owes_eq (c : Call) : c.owes = (c.unpaid.map Resident.weight).sum := by
  have hpass (p : Pass) : p.owes = (p.unpaid.map Resident.weight).sum := by
    cases p <;> simp [Pass.owes, Pass.unpaid]
  cases c with
  | get k reader goal stage =>
    cases stage with
    | evict chunk p => exact hpass p
    | _ => rfl
  | direct => rfl
  | invalidate k x => cases x <;> simp [owes, unpaid, Removal.owes, Removal.unpaid]
  | sweep matches? x => cases x <;> simp [owes, unpaid, Sweep.owes, Sweep.unpaid]
  | evict p => exact hpass p

end

namespace Traffic
variable {t u : Traffic}

def unpaid (t : Traffic) : List Resident := t.calls.flatMap Call.unpaid

theorem owes_eq (t : Traffic) : t.owes = (t.unpaid.map Resident.weight).sum := by
  rw [owes, unpaid]
  induction t.calls with
  | nil => rfl
  | cons c calls ih => rw [List.map_cons, List.sum_cons, List.flatMap_cons, List.map_append,
      List.sum_append, ih, c.owes_eq]

structure Measured (t : Traffic) : Prop where
  resident : ∀ k c w, t.shared.store.occupant? k = some (.resident c w) →
    t.shared.memory.Measures c w
  carried : ∀ x ∈ t.calls, ∀ c w, x.carries? = some (c, w) → t.shared.memory.Measures c w
  unpaid : ∀ x ∈ t.calls, ∀ r ∈ x.unpaid, t.shared.memory.Measures r.chunk r.weight

theorem measured_of_initial (h : t.Initial) : t.Measured := by
  obtain ⟨settings, hash, hstore⟩ := h.store
  refine ⟨fun k c w hk ↦ ?_, by simp [h.calls], by simp [h.calls]⟩
  obtain ⟨r, hr, -, -⟩ := (Store.mem_residents_iff_occupant? (Store.proper_create? hstore)).2 hk
  rw [Store.residents_create? hstore] at hr
  cases hr

theorem goes_measured {m : Move} (hp : t.shared.store.slots.Proper) (h : t.Measured)
    (hs : t.Goes m u) : u.Measured := by
  have hold (x : Call) (hx : x ∈ t.calls) {m : Memory} (hm : t.shared.memory.Ages m) :
      (∀ c w, x.carries? = some (c, w) → m.Measures c w) ∧
        ∀ r ∈ x.unpaid, m.Measures r.chunk r.weight :=
    ⟨fun c w hc ↦ (h.carried x hx c w hc).mono hm, fun r hr ↦ (h.unpaid x hx r hr).mono hm⟩
  have hages := (hs.grows hp).ages
  cases hs with
  | start c =>
    have hnew : c.call.carries? = none ∧ c.call.unpaid = [] := by
      rcases c.call_cases with ⟨k, reader, goal, x, he, rfl | ⟨f, rfl⟩⟩ | ⟨asked, k, reader, he⟩ |
        ⟨k, he⟩ | ⟨matches?, he⟩ | he <;> rw [he] <;> exact ⟨rfl, rfl⟩
    refine ⟨h.resident, fun x hx ↦ ?_, fun x hx ↦ ?_⟩ <;>
      rcases List.mem_append.1 hx with hx | hx
    · exact (hold x hx hages).1
    · rw [List.mem_singleton.1 hx, hnew.1]
      simp
    · exact (hold x hx hages).2
    · rw [List.mem_singleton.1 hx, hnew.2]
      simp
  | @advance i conduct c c' s hi hgo =>
    have hc := List.mem_of_getElem? hi
    refine ⟨fun k d w hk ↦ ?_, fun x hx ↦ ?_, fun x hx ↦ ?_⟩
    · rcases (hgo.effect hp).resident hk with hk | ⟨reader, goal, ticket, rfl, -, -⟩
      · exact (h.resident k d w hk).mono hages
      · exact (h.carried _ hc d w rfl).mono hages
    · rcases List.mem_or_eq_of_mem_set hx with hx | rfl
      · exact (hold x hx hages).1
      · exact fun d w hd ↦ hgo.carries hd
    · rcases List.mem_or_eq_of_mem_set hx with hx | rfl
      · exact (hold x hx hages).2
      · intro r hr
        rcases hgo.unpaid hr with hr | ⟨k, hk⟩
        · exact (h.unpaid c hc r hr).mono hages
        · exact (h.resident k _ _ hk).mono hages
  | other store =>
    refine ⟨fun k c w hk ↦ ?_, fun x hx ↦ (hold x hx hages).1, fun x hx ↦ (hold x hx hages).2⟩
    exact (h.resident k c w (store.occupants ▸ hk)).mono hages

theorem measured_of_reaches {sane : Traffic → Prop} (ht : t.Initial) (hr : t.Reaches sane u) :
    u.Measured := by
  induction hr with
  | refl => exact measured_of_initial ht
  | step m hr hs _ ih =>
    have hp := (weighed_of_reaches (weighed_of_initial ht) hr).proper
    exact goes_measured hp ih (step_goes hp hs)

theorem residentWeight_eq (hp : t.shared.store.slots.Proper) (h : t.Measured) :
    t.shared.store.residentWeight = t.shared.residentCapacity := by
  rw [Store.residentWeight, Store.entries, List.map_map, Shared.residentCapacity]
  refine congrArg List.sum (List.map_congr_left fun b hb ↦ ?_)
  have hr := (Store.mem_residents hp).1 hb
  exact (h.resident b.1 _ _ (Store.occupant?_of_resident hr)).capacity_eq.symm

/-- A slot that has a chunk is freed before it is taken again. -/
theorem resident_of_step {m : Move} (hp : t.shared.store.slots.Proper) (hs : t.step m = some u)
    {k : ChunkId} {c c' : ChunkRef} {w w' : Nat}
    (hc : t.shared.store.occupant? k = some (.resident c w))
    (hc' : u.shared.store.occupant? k = some (.resident c' w')) : c' = c ∧ w' = w := by
  have hsame (hk : t.shared.store.occupant? k = some (.resident c' w')) : c' = c ∧ w' = w := by
    rw [hc] at hk
    cases hk
    exact ⟨rfl, rfl⟩
  cases step_goes hp hs with
  | start => exact hsame hc'
  | advance _ h =>
    rcases (h.effect hp).resident hc' with hk | ⟨reader, goal, ticket, -, -, hk⟩
    · exact hsame hk
    · rw [hc] at hk
      cases hk
  | other store => exact hsame (store.occupants ▸ hc')

/-- The weight that is kept is the capacity of all resident chunks and of those that were taken out
and wait to be subtracted. So a subtraction never takes more than there is, and leaves what is
resident; a resident chunk is never replaced by another; and with no call under way the weight is
what is resident and nothing else. -/
theorem weight_accounted {sane : Traffic → Prop} (ht : t.Initial) (h : t.Reaches sane u) :
    u.shared.store.weightedSize =
      u.shared.residentCapacity + (u.unpaid.map Resident.weight).sum ∧
    (∀ r ∈ u.unpaid, r.weight = u.shared.memory.capacity r.chunk ∧
      u.shared.residentCapacity + r.weight ≤ u.shared.store.weightedSize) ∧
    (∀ m v k c w c' w', u.step m = some v →
      u.shared.store.occupant? k = some (.resident c w) →
      v.shared.store.occupant? k = some (.resident c' w') → c' = c ∧ w' = w) ∧
    (u.idle = true → u.shared.store.weightedSize = u.shared.residentCapacity ∧
      (u.shared.store.size = 0 → u.shared.store.weightedSize = 0)) := by
  have hw := weighed_of_reaches (weighed_of_initial ht) h
  have hm := measured_of_reaches ht h
  have hweight : u.shared.store.weightedSize =
      u.shared.residentCapacity + (u.unpaid.map Resident.weight).sum := by
    rw [hw.weight, residentWeight_eq hw.proper hm, owes_eq]
  refine ⟨hweight, fun r hr ↦ ⟨?_, ?_⟩, fun m v k c w c' w' hs ↦ resident_of_step hw.proper hs,
    fun hi ↦ ?_⟩
  · obtain ⟨x, hx, hr⟩ := List.mem_flatMap.1 hr
    exact (hm.unpaid x hx r hr).capacity_eq.symm
  · rw [hweight]
    exact Nat.add_le_add_left (List.le_sum_of_mem (List.mem_map_of_mem hr)) _
  · have hexact : u.shared.store.weightedSize = u.shared.residentCapacity := by
      rw [hweight, ← owes_eq, owes_of_idle hi, Nat.add_zero]
    refine ⟨hexact, fun hz ↦ ?_⟩
    rw [hexact, Shared.residentCapacity, List.length_eq_zero_iff.1 hz]
    rfl

/-- Two chunks of 6 and 3 bytes, of which the first is out of the table but not yet subtracted. -/
theorem weight_accounted_past_removal :
    ∃ t u : Traffic, t.Initial ∧ t.Reaches Modest u ∧ u.unpaid.map Resident.weight = [6] ∧
      u.shared.residentCapacity = 3 ∧ u.shared.store.weightedSize = 3 + 6 := by
  let moves : List Move := loadSmall 0 "a" 6 8 ++ loadSmall 1 "b" 3 8 ++
    alone 2 (.invalidate ((smallFile "a" 6).chunkId 0)) (.ofReader (smallFile "a" 6) 0) 1
  have hend : ((create? tight ChunkId.hash).bind (·.run moves)).any fun u ↦
      u.unpaid.map Resident.weight = [6] ∧ u.shared.residentCapacity = 3 := by decide +kernel
  obtain ⟨u, hu, hprops⟩ := (Option.any_eq_true _ _).1 hend
  obtain ⟨t, ht, hrun⟩ := Option.bind_eq_some_iff.1 hu
  simp only [decide_eq_true_eq] at hprops
  have haccounted := weight_accounted (initial_of_create? ht) (reaches_of_run hrun)
  refine ⟨t, u, initial_of_create? ht, reaches_of_run hrun, hprops.1, hprops.2, ?_⟩
  rw [haccounted.1, hprops.1, hprops.2]
  rfl

end Traffic
end ReadCache
