import ReadCache.Proofs.Steps

namespace ReadCache

def Pass.owes : Pass → Nat
  | discount r _ => r.weight
  | _ => 0

def Stage.owes : Stage → Nat
  | evict _ p => p.owes
  | _ => 0

def Removal.owes : Removal → Nat
  | discount r => r.weight
  | _ => 0

def Sweep.owes : Sweep → Nat
  | discount _ rest _ => (rest.map Resident.weight).sum
  | _ => 0

/-- The weight that a call has taken out of the table and not yet subtracted. -/
def Call.owes : Call → Nat
  | get _ _ _ stage => stage.owes
  | direct .. => 0
  | invalidate _ stage => stage.owes
  | sweep _ stage => stage.owes
  | evict p => p.owes

/-- A step by which nothing becomes resident, of a call that owes `before` and then `after`. -/
structure Shared.Proceeds (s s' : Shared) (before after : Nat) : Prop where
  proper : s'.store.slots.Proper
  weight : ∀ rest, s.store.weightedSize = s.store.residentWeight + (before + rest) →
    s'.store.weightedSize = s'.store.residentWeight + (after + rest)
  bound : s'.store.weightedSize ≤ s.store.weightedSize
  drains : ∃ gone, s.store.entries.Perm (gone ++ s'.store.entries)
  settings : s'.store.settings = s.store.settings
  home : s'.store.slots.home = s.store.slots.home
  gaveUp : s.gaveUp ≤ s'.gaveUp

/-- A step that makes a chunk resident and adds its weight. -/
structure Shared.Admits (s s' : Shared) : Prop where
  proper : s'.store.slots.Proper
  weight : ∀ rest, s.store.weightedSize = s.store.residentWeight + rest →
    s'.store.weightedSize = s'.store.residentWeight + rest
  settings : s'.store.settings = s.store.settings
  gaveUp : s.gaveUp ≤ s'.gaveUp

namespace Shared.Proceeds
variable {s s' : Shared} {n : Nat}

theorem keep (hp : s'.store.slots.Proper) (he : s'.store.entries = s.store.entries)
    (ha : s.store.Alike s'.store) (hg : s.gaveUp ≤ s'.gaveUp) : s.Proceeds s' n n where
  proper := hp
  weight rest h := by simpa only [Store.residentWeight, he, ha.weightedSize] using h
  bound := Nat.le_of_eq ha.weightedSize
  drains := ⟨[], by simp [he]⟩
  settings := ha.settings
  home := ha.home
  gaveUp := hg

theorem same (hp : s.store.slots.Proper) (hslots : s'.store.slots = s.store.slots)
    (hw : s'.store.weightedSize = s.store.weightedSize)
    (hs : s'.store.settings = s.store.settings) (hg : s.gaveUp ≤ s'.gaveUp) :
    s.Proceeds s' n n := by
  refine keep (hslots ▸ hp) ?_ ⟨hw, hs, by rw [hslots]⟩ hg
  simp only [Store.entries, Store.residents, hslots]

theorem of_store (hp : s.store.slots.Proper) (hstore : s'.store = s.store)
    (hg : s.gaveUp ≤ s'.gaveUp) : s.Proceeds s' n n :=
  same hp (by rw [hstore]) (by rw [hstore]) (by rw [hstore]) hg

theorem take (gone : List Entry) (hp : s'.store.slots.Proper)
    (he : s.store.entries.Perm (gone ++ s'.store.entries))
    (ha : s.store.Alike s'.store) (hg : s.gaveUp ≤ s'.gaveUp) :
    s.Proceeds s' n ((gone.map Entry.weight).sum + n) where
  proper := hp
  weight rest h := by
    have hsum := (he.map Entry.weight).sum_nat
    rw [List.map_append, List.sum_append] at hsum
    have hw := ha.weightedSize
    simp only [Store.residentWeight] at h ⊢
    omega
  bound := Nat.le_of_eq ha.weightedSize
  drains := ⟨gone, he⟩
  settings := ha.settings
  home := ha.home
  gaveUp := hg

theorem discount (hp : s.store.slots.Proper) (r : Resident) :
    s.Proceeds (s.onStore (·.discount r)) (r.weight + n) n where
  proper := hp
  weight rest h := by
    have hw : (s.onStore (·.discount r)).store.weightedSize = s.store.weightedSize - r.weight := rfl
    have he : (s.onStore (·.discount r)).store.residentWeight = s.store.residentWeight := rfl
    omega
  bound := Nat.sub_le _ _
  drains := ⟨[], .refl _⟩
  settings := rfl
  home := rfl
  gaveUp := Nat.le_refl _

end Shared.Proceeds

section
variable {s s' : Shared}

theorem Pass.step_proceeds {p p' : Pass} (hp : s.store.slots.Proper)
    (hs : p.step s = some (p', s')) : s.Proceeds s' p.owes p'.owes := by
  cases steps hs with
  | @take k r b hr =>
    exact Shared.Proceeds.take (n := 0) [r.entry k] (Store.proper_detach hp k)
      (Store.entries_detach hp hr) (Store.alike_detach _ _) (Nat.le_refl _)
  | discount => exact .discount (n := 0) hp _
  | giveUp =>
    refine .same hp rfl rfl rfl ?_
    dsimp only
    split
    · exact Nat.le_succ _
    · exact Nat.le_refl _
  | _ => exact .same hp rfl rfl rfl (Nat.le_refl _)

theorem Removal.step_proceeds {k : ChunkId} {x x' : Removal} (hp : s.store.slots.Proper)
    (hs : x.step k s = some (x', s')) : s.Proceeds s' x.owes x'.owes := by
  have hproper := Store.proper_detach hp k
  cases steps hs with
  | @take r hr =>
    exact Shared.Proceeds.take (n := 0) [r.entry k] hproper (Store.entries_detach hp hr)
      (Store.alike_detach _ _) (Nat.le_refl _)
  | clear hn =>
    exact .keep hproper (Store.entries_detach_of_not_resident hp hn) (Store.alike_detach _ _)
      (Nat.le_refl _)
  | discount => exact .discount (n := 0) hp _
  | retire => exact .same hp rfl rfl rfl (Nat.le_refl _)

theorem Sweep.step_proceeds {matches? : ChunkId → Bool} {x x' : Sweep}
    (hp : s.store.slots.Proper) (hs : x.step matches? s = some (x', s')) :
    s.Proceeds s' x.owes x'.owes := by
  cases steps hs with
  | @clear shard out hi =>
    have hout : (((s.store.matching shard matches?).map fun b ↦ b.2.entry b.1).map
        Entry.weight) =
          (s.store.detachMatching shard matches?).1.map Resident.weight := by
      simp [Store.matching, Store.detachMatching, Resident.entry]
    have htake :
        s.Proceeds (s.onStore fun _ ↦ (s.store.detachMatching shard matches?).2) 0 (_ + 0) :=
      .take _ (Store.proper_detachMatching hp shard matches?)
        (Store.entries_detachMatching s.store hi matches?) (Store.alike_detachMatching _ _ _)
        (Nat.le_refl _)
    rw [hout] at htake
    exact htake
  | discount => exact .discount hp _
  | _ => exact .same hp rfl rfl rfl (Nat.le_refl _)

theorem acquire_proceeds (hp : s.store.slots.Proper) (c : Conduct) (position : UInt64)
    (roundUp : Bool) : s.Proceeds (c.acquire position roundUp s).2 0 0 := by
  obtain ⟨m, he⟩ := c.acquire_eq position roundUp s
  rw [he]
  exact .of_store hp rfl (Nat.le_refl _)

/-- Has the call just made a chunk resident? -/
def Stage.admitted : Stage → Prop
  | publish _ _ true => True
  | _ => False

theorem Shared.Admits.settle (hp : s.store.slots.Proper) {k : ChunkId} {t : Ticket}
    (ho : s.store.owns k t = true) (chunk : ChunkRef) (weight : Nat) :
    s.Admits (s.onStore fun _ ↦ (s.store.settle k t chunk weight).2) where
  proper := Store.proper_settle hp t chunk weight
  weight rest h := by
    have hsum := ((Store.entries_settle hp (c := chunk) (w := weight) ho).map Entry.weight).sum_nat
    have hw : (s.store.settle k t chunk weight).2.weightedSize =
        s.store.weightedSize + weight := by
      simp [Store.settle, ho]
    have hentry : (⟨k, chunk, weight⟩ : Entry).weight = weight := rfl
    rw [List.map_cons, List.sum_cons, hentry] at hsum
    change (s.store.settle k t chunk weight).2.weightedSize =
      (s.store.settle k t chunk weight).2.residentWeight + rest
    simp only [Store.residentWeight] at h ⊢
    omega
  settings := by
    show (s.store.settle k t chunk weight).2.settings = s.store.settings
    simp [Store.settle, ho]
  gaveUp := Nat.le_refl _

theorem Stage.step_proceeds {k : ChunkId} {c : Conduct} {x x' : Stage}
    (hp : s.store.slots.Proper) (hs : x.step k c s = some (x', s')) :
    s.Proceeds s' x.owes x'.owes ∨ (x'.admitted ∧ x.owes = 0 ∧ x'.owes = 0 ∧ s.Admits s') := by
  -- What the call did to the table is one of its operations, and then it was counted.
  have hcount {store : Store} {e : Event} (hproper : store.slots.Proper)
      (he : store.entries = s.store.entries) (ha : s.store.Alike store) :
      s.Proceeds (s.onStore fun _ ↦ store.record e) 0 0 :=
    .keep hproper he ⟨ha.weightedSize, ha.settings, ha.home⟩ (Nat.le_refl _)
  cases steps hs with
  | hit hr | hitLate hr =>
    exact .inl (hcount (Store.proper_touch hp _) (Store.entries_touch hp hr)
      (Store.alike_touch _ _ _))
  | begin =>
    exact .inl (hcount (Store.proper_claim hp k) (Store.entries_claim hp k)
      (Store.alike_claim s.store k))
  | borrow | refuse => exact .inl (acquire_proceeds hp c _ _)
  | settle ho => exact .inr ⟨trivial, rfl, rfl, .settle hp ho _ _⟩
  | pass hq => exact .inl (Pass.step_proceeds hp hq)
  | @clear t f =>
    exact .inl (.keep (f.proper_clearLoad hp t) (f.entries_clearLoad hp t)
      (f.alike_clearLoad _ k t) (Nat.le_refl _))
  | _ => exact .inl (.same hp rfl rfl rfl (Nat.le_refl _))

theorem Direct.step_proceeds {asked k : ChunkId} {c : Conduct} {x x' : Direct}
    (hp : s.store.slots.Proper) (hs : x.step asked k c s = some (x', s')) : s.Proceeds s' 0 0 := by
  cases steps hs with
  | borrow | refuse => exact acquire_proceeds hp c _ _
  | arrive | fail => exact .of_store hp rfl (Nat.le_refl _)

def Call.admitted : Call → Prop
  | get _ _ _ stage => stage.admitted
  | _ => False

theorem Call.step_proceeds {c : Conduct} {x x' : Call} (hp : s.store.slots.Proper)
    (hs : x.step c s = some (x', s')) :
    s.Proceeds s' x.owes x'.owes ∨ (x'.admitted ∧ x.owes = 0 ∧ x'.owes = 0 ∧ s.Admits s') := by
  cases steps hs with
  | stage h => exact Stage.step_proceeds hp h
  | direct h => exact .inl (Direct.step_proceeds hp h)
  | invalidate h => exact .inl (Removal.step_proceeds hp h)
  | sweep h => exact .inl (Sweep.step_proceeds hp h)
  | evict h => exact .inl (Pass.step_proceeds hp h)
  | take | retry | exhaust | overflow => exact .inl (.of_store hp rfl (Nat.le_refl _))

theorem Call.owes_of_ended {x : Call} (h : x.ended = true) : x.owes = 0 := by
  cases x with
  | get k reader goal stage =>
    cases stage with
    | evict chunk p => cases goal <;> cases h
    | _ => rfl
  | direct => rfl
  | invalidate k stage =>
    cases stage with
    | ended => rfl
    | _ => cases h
  | sweep matches? stage =>
    cases stage with
    | ended => rfl
    | _ => cases h
  | evict p =>
    cases p with
    | left => rfl
    | _ => cases h

end

namespace Traffic
variable {t u : Traffic}

def owes (t : Traffic) : Nat := (t.calls.map Call.owes).sum

structure Weighed (t : Traffic) : Prop where
  proper : t.shared.store.slots.Proper
  weight : t.shared.store.weightedSize = t.shared.store.residentWeight + t.owes

theorem weightedSize_of_initial (h : t.Initial) : t.shared.store.weightedSize = 0 := by
  obtain ⟨settings, hash, hstore⟩ := h.store
  rw [Store.create?_eq hstore]

theorem weighed_of_initial (h : t.Initial) : t.Weighed := by
  have hw := weightedSize_of_initial h
  obtain ⟨settings, hash, hstore⟩ := h.store
  refine ⟨Store.proper_create? hstore, ?_⟩
  simp [hw, Store.residentWeight, Store.entries, Store.residents_create? hstore, owes, h.calls]

theorem owes_start (c : Start) : c.call.owes = 0 := by
  cases c with
  | rebuffer a reader position =>
    simp only [Start.call, Call.rebuffer]
    split
    · simp only [Call.owes]
      split <;> rfl
    · rfl
  | _ => rfl

theorem step_weighed {m : Move} (h : t.Weighed) (hs : t.step m = some u) : u.Weighed := by
  rcases step_cases hs with ⟨i, conduct, rfl⟩ | ⟨hcalls, hslots, hw, -, -, -⟩
  · obtain ⟨c, c', s, hi, hstep, rfl⟩ := advance_cases hs
    obtain ⟨others, hold, hnew⟩ := calls_split hi
    have hbefore := (hold.map Call.owes).sum_nat
    have hafter := ((hnew c').map Call.owes).sum_nat
    rw [List.map_cons, List.sum_cons] at hbefore hafter
    have hweight := h.weight
    rw [owes, hbefore] at hweight
    rcases Call.step_proceeds h.proper hstep with hp | ⟨-, hzero, hzero', ha⟩
    · refine ⟨hp.proper, ?_⟩
      rw [owes, hafter]
      exact hp.weight _ hweight
    · refine ⟨ha.proper, ?_⟩
      rw [hzero, Nat.zero_add] at hweight
      rw [owes, hafter, hzero', Nat.zero_add]
      exact ha.weight _ hweight
  · have howes : u.owes = t.owes := by
      rcases hcalls with he | ⟨c, he⟩
      · rw [owes, owes, he]
      · simp [owes, he, owes_start c]
    refine ⟨hslots ▸ h.proper, ?_⟩
    rw [hw, howes, h.weight]
    simp only [Store.residentWeight, Store.entries, Store.residents, hslots]

theorem weighed_of_reaches {sane : Traffic → Prop} (h : t.Weighed) (hr : t.Reaches sane u) :
    u.Weighed := by
  induction hr with
  | refl => exact h
  | step m _ hs _ ih => exact step_weighed ih hs

theorem settings_of_step {m : Move} (hw : t.Weighed) (hs : t.step m = some u) :
    u.shared.store.settings = t.shared.store.settings := by
  rcases step_cases hs with ⟨i, conduct, rfl⟩ | ⟨-, -, -, hset, -⟩
  · obtain ⟨c, c', s, hi, hstep, rfl⟩ := advance_cases hs
    rcases Call.step_proceeds hw.proper hstep with hp | ⟨-, -, -, ha⟩
    · exact hp.settings
    · exact ha.settings
  · exact hset

theorem settings_of_reaches {sane : Traffic → Prop} (h : t.Weighed) (hr : t.Reaches sane u) :
    u.shared.store.settings = t.shared.store.settings := by
  induction hr with
  | refl => rfl
  | step m hr hs _ ih => exact (settings_of_step (weighed_of_reaches h hr) hs).trans ih

end Traffic
end ReadCache
