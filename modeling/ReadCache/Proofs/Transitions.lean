import ReadCache.Proofs.Conservation
import ReadCache.Proofs.Lifetimes
import ReadCache.Proofs.Slots

namespace ReadCache

/-- What becomes of the slots and of the loads in a step, how many chunks come, the handles that are
made, and the chunks of which references may be made or given up. -/
structure Shared.Turns (s s' : Shared) (occupants : Store.Occupants) (results : Store.Results)
    (come : Nat) (made : List Handle) (touched : List ChunkRef) : Prop where
  store : s.store.Becomes s'.store occupants results
  ages : s.memory.Ages s'.memory
  spares : s.memory.Spares s'.memory touched
  size : s'.memory.chunks.size = s.memory.chunks.size + come
  handles : s'.handles = s.handles ++ made

namespace Shared

/-- A step that nobody can tell from none, but for a block less. -/
abbrev Stays (s s' : Shared) : Prop := s.Turns s' s.store.occupant? s.store.results 0 [] []

abbrev Frees (s s' : Shared) (keys : ChunkId → Bool) (touched : List ChunkRef) : Prop :=
  s.Turns s' (s.store.occupant?.free keys) s.store.results 0 [] touched

/-- A step that frees slots, by a call that has taken out `before` and then `after`, of which the
weights have still to be subtracted, and that holds the references `held` and then `held'`. -/
structure Removes (s s' : Shared) (keys : ChunkId → Bool) (before after : List Resident)
    (held held' : List ChunkRef) : Prop where
  frees : s.Frees s' keys held
  out : ∀ r ∈ after, r ∈ before ∨
    ∃ k, keys k = true ∧ s.store.occupant? k = some (.resident r.chunk r.weight)
  holds : ∀ c ∈ held', c ∈ held ∨ ∃ k w, s.store.occupant? k = some (.resident c w)

variable {s s' : Shared} {occupants : Store.Occupants} {results : Store.Results}

theorem turns_onStore {store : Store} {touched : List ChunkRef}
    (h : s.store.Becomes store occupants results) :
    s.Turns (s.onStore fun _ ↦ store) occupants results 0 [] touched :=
  ⟨h, Memory.ages_refl _, Memory.spares_of_chunks rfl _, rfl, (List.append_nil _).symm⟩

theorem stays_of_store (hp : s.store.slots.Proper) (hstore : s'.store.slots = s.store.slots)
    (hresults : s'.store.results = s.store.results) (hchunks : s'.memory.chunks = s.memory.chunks)
    (hh : s'.handles = s.handles) : s.Stays s' :=
  ⟨.of_slots hp hstore hresults, Memory.ages_of_chunks hchunks, Memory.spares_of_chunks hchunks _,
    by rw [hchunks]; rfl, by rw [hh, List.append_nil]⟩

theorem stays_refl (hp : s.store.slots.Proper) : s.Stays s := stays_of_store hp rfl rfl rfl rfl

theorem turns_retire (hp : s.store.slots.Proper) (c : ChunkRef) (cause : RemovalCause) :
    s.Turns (s.retire c cause) s.store.occupant? s.store.results 0 [] [c] :=
  ⟨.of_slots hp rfl rfl, Memory.ages_unreference _ c, Memory.spares_unreference _ c,
    Memory.size_unreference _ c, (List.append_nil _).symm⟩

theorem Removes.of_turns {before after : List Resident} {touched held held' : List ChunkRef}
    (h : s.Turns s' s.store.occupant? s.store.results 0 [] touched) (hout : after ⊆ before)
    (htouched : touched ⊆ held) (hheld : held' ⊆ held) :
    s.Removes s' (fun _ ↦ false) before after held held' where
  frees := ⟨Store.Frees.of_stays h.store, h.ages,
    fun c chunk hc hfree ↦ h.spares c chunk hc (hfree.imp_left fun hn hm ↦ hn (htouched hm)),
    h.size, h.handles⟩
  out _ hr := .inl (hout hr)
  holds _ hc := .inl (hheld hc)

theorem Removes.detach (hp : s.store.slots.Proper) {k : ChunkId} {out : List Resident}
    (hout : ∀ r ∈ out, s.store.slots.get? k = some (.resident r)) :
    s.Removes (s.onStore fun _ ↦ (s.store.detach k).2) (fun k' ↦ k' = k) [] out []
      (out.map Resident.chunk) where
  frees := turns_onStore (Store.frees_detach hp k)
  out r hr := .inr ⟨k, decide_eq_true rfl, Store.occupant?_of_resident (hout r hr)⟩
  holds c hc := by
    obtain ⟨r, hr, rfl⟩ := List.mem_map.1 hc
    exact .inr ⟨k, _, Store.occupant?_of_resident (hout r hr)⟩

end Shared

def Pass.unpaid : Pass → List Resident
  | discount r _ => [r]
  | _ => []

def Stage.unpaid : Stage → List Resident
  | evict _ p => p.unpaid
  | _ => []

def Removal.unpaid : Removal → List Resident
  | discount r => [r]
  | _ => []

def Sweep.unpaid : Sweep → List Resident
  | discount _ rest _ => rest
  | _ => []

def Call.unpaid : Call → List Resident
  | get _ _ _ stage => stage.unpaid
  | direct .. => []
  | invalidate _ stage => stage.unpaid
  | sweep _ stage => stage.unpaid
  | evict p => p.unpaid

section
variable {s s' : Shared}

theorem Pass.step_removes {p q : Pass} (hp : s.store.slots.Proper) (hs : p.step s = some (q, s')) :
    ∃ keys, s.Removes s' keys p.unpaid q.unpaid p.held q.held := by
  cases steps hs with
  | take hr => exact ⟨_, .detach hp fun r' hr' ↦ List.mem_singleton.1 hr' ▸ hr⟩
  | discount =>
    exact ⟨_, .of_turns (Shared.stays_of_store hp rfl rfl rfl rfl) (List.nil_subset _)
      (List.nil_subset _) (List.Subset.refl _)⟩
  | retire =>
    exact ⟨_, .of_turns (Shared.turns_retire hp _ .size) (List.nil_subset _)
      (List.Subset.refl _) (List.nil_subset _)⟩
  | _ =>
    exact ⟨_, .of_turns (Shared.stays_of_store hp rfl rfl rfl rfl) (List.nil_subset _)
      (List.nil_subset _) (List.nil_subset _)⟩

theorem Removal.step_removes {k : ChunkId} {x x' : Removal} (hp : s.store.slots.Proper)
    (hs : x.step k s = some (x', s')) :
    ∃ keys, s.Removes s' keys x.unpaid x'.unpaid x.held x'.held := by
  cases steps hs with
  | take hr => exact ⟨_, .detach hp fun r' hr' ↦ List.mem_singleton.1 hr' ▸ hr⟩
  | clear => exact ⟨_, .detach hp fun _ hr ↦ absurd hr List.not_mem_nil⟩
  | discount =>
    exact ⟨_, .of_turns (Shared.stays_of_store hp rfl rfl rfl rfl) (List.nil_subset _)
      (List.nil_subset _) (List.Subset.refl _)⟩
  | retire =>
    exact ⟨_, .of_turns (Shared.turns_retire hp _ .explicit) (List.nil_subset _)
      (List.Subset.refl _) (List.nil_subset _)⟩

theorem Sweep.step_removes {matches? : ChunkId → Bool} {x x' : Sweep} (hp : s.store.slots.Proper)
    (hs : x.step matches? s = some (x', s')) :
    ∃ keys, s.Removes s' keys x.unpaid x'.unpaid x.held x'.held := by
  have hrefl := Shared.stays_refl hp
  cases steps hs with
  | @clear shard out =>
    have hmore (r : Resident) (hr : r ∈ (s.store.detachMatching shard matches?).1) :
        ∃ k, (s.store.slots.home k = shard && matches? k) = true ∧
          s.store.occupant? k = some (.resident r.chunk r.weight) := by
      obtain ⟨⟨k, _⟩, hm, rfl⟩ := List.mem_map.1 hr
      obtain ⟨hm, hmatch⟩ := List.mem_filter.1 (Store.mem_residentsOf.1 hm)
      refine ⟨k, ?_, Store.occupant?_of_resident
        (hp.get?_eq_some_iff.2 (ShardedMap.mem_toList_of_mem_shard hm))⟩
      simpa [hp.home shard _ hm] using hmatch
    refine ⟨_, Shared.turns_onStore (Store.frees_detachMatching hp shard matches?),
      fun r hr ↦ .inr (hmore r hr), fun c hc ↦ ?_⟩
    obtain ⟨r, hr, rfl⟩ := List.mem_map.1 hc
    rcases List.mem_append.1 hr with hr | hr
    · obtain ⟨k, -, hk⟩ := hmore r hr
      exact .inr ⟨k, _, hk⟩
    · exact .inl (List.mem_map_of_mem hr)
  | through | next =>
    exact ⟨_, .of_turns hrefl (List.nil_subset _) (List.nil_subset _) (List.Subset.refl _)⟩
  | @discount shard r todo out =>
    refine ⟨_, .of_turns (Shared.stays_of_store hp rfl rfl rfl rfl) (List.subset_cons_self r todo)
      (List.nil_subset _) (List.map_subset _ fun r' hr' ↦ ?_)⟩
    simp only [List.mem_append, List.mem_cons, List.not_mem_nil, or_false] at hr' ⊢
    tauto
  | @retire r todo n =>
    exact ⟨_, .of_turns (Shared.turns_retire hp r.chunk .explicit) (List.nil_subset _)
      (by simp [held]) (List.subset_cons_self _ _)⟩
  | leave =>
    exact ⟨_, .of_turns hrefl (List.nil_subset _) (List.nil_subset _) (List.nil_subset _)⟩

/-- The steps of a request for `k`. -/
inductive Stage.Goes (k : ChunkId) (s : Shared) : Stage → Stage → Shared → Prop where
  | hit {x : Stage} {s' : Shared} {c : ChunkRef} {w : Nat} (hx : x = seek ∨ x = claim)
      (hk : s.store.occupant? k = some (.resident c w)) (h : s.Stays s') :
      Goes k s x (answered (.ok c)) s'
  | join {x : Stage} {s' : Shared} {t : Ticket} (hx : x = seek ∨ x = claim)
      (hk : s.store.occupant? k = some (.loading t)) (h : s.Stays s') : Goes k s x (await t) s'
  | miss {s' : Shared} (hk : s.store.occupant? k = none) (h : s.Stays s') : Goes k s seek claim s'
  | begin {s' : Shared} (hk : s.store.occupant? k = none)
      (h : s.Turns s'
        (Function.update s.store.occupant? k (some (.loading s.store.results.size)))
        (s.store.results.push none) 0 [] []) : Goes k s claim (borrow s.store.results.size) s'
  | receive {t : Ticket} {r : Except Error ChunkRef} (hr : s.store.result? t = some r) :
      Goes k s (await t) (answered (r.mapError Failure.error)) s
  | borrow {t : Ticket} {b : Block} {s' : Shared} (h : s.Stays s') :
      Goes k s (borrow t) (read t b) s'
  | refuse {t : Ticket} {f : Failure} {s' : Shared} (h : s.Stays s') :
      Goes k s (borrow t) (clear t f) s'
  | arrive {t : Ticket} {b : Block} {w : Nat} {s' : Shared}
      (h : s.Turns s' s.store.occupant? s.store.results 1 [] [])
      (hw : ∃ chunk, s'.memory.chunk? s.memory.chunks.size = some chunk ∧ chunk.capacity = w ∧
        chunk.references = 1) :
      Goes k s (read t b) (settle t s.memory.chunks.size w) s'
  | fail {t : Ticket} {b : Block} {f : Failure} {s' : Shared} (h : s.Stays s') :
      Goes k s (read t b) (clear t f) s'
  | settle {t : Ticket} {c : ChunkRef} {w : Nat} {s' : Shared}
      (hk : s.store.occupant? k = some (.loading t))
      (h : s.Turns s' (Function.update s.store.occupant? k (some (.resident c w)))
        s.store.results 0 [] []) : Goes k s (settle t c w) (publish t c true) s'
  | lose {t : Ticket} {c : ChunkRef} {w : Nat} (hk : s.store.occupant? k ≠ some (.loading t)) :
      Goes k s (settle t c w) (publish t c false) s
  | publish {t : Ticket} {c : ChunkRef} {settled : Bool} {s' : Shared}
      (h : s.Turns s' s.store.occupant? (s.store.results.setIfInBounds t (some (.ok c))) 0 [] []) :
      Goes k s (publish t c settled) (if settled then evict c .compare else replace c) s'
  | replace {c : ChunkRef} {s' : Shared}
      (h : s.Turns s' s.store.occupant? s.store.results 0 [] [c]) :
      Goes k s (replace c) (answered (.ok c)) s'
  | leave {c : ChunkRef} : Goes k s (evict c .left) (answered (.ok c)) s
  | pass {c : ChunkRef} {p q : Pass} {s' : Shared} {keys : ChunkId → Bool}
      (h : s.Removes s' keys p.unpaid q.unpaid p.held q.held) :
      Goes k s (evict c p) (evict c q) s'
  | clear {t : Ticket} {f : Failure} {s' : Shared}
      (h : s.Frees s' (fun k' ↦ k' = k && s.store.occupant? k = some (.loading t)) []) :
      Goes k s (clear t f) (announce t f) s'
  | announce {t : Ticket} {f : Failure} {s' : Shared}
      (h : s.Turns s' s.store.occupant?
        (s.store.results.setIfInBounds t (some (.error (f.told k)))) 0 [] []) :
      Goes k s (announce t f) (answered (.error f)) s'

theorem Stage.Goes.of_await {k : ChunkId} {t : Ticket} {x' : Stage} (h : Goes k s (await t) x' s') :
    ∃ r, s.store.result? t = some r ∧ x' = answered (r.mapError Failure.error) := by
  cases h with
  | hit hx _ _ | join hx _ _ => rcases hx with he | he <;> cases he
  | receive hr => exact ⟨_, hr, rfl⟩

theorem Conduct.stays_acquire (hp : s.store.slots.Proper) (c : Conduct) (position : UInt64)
    (roundUp : Bool) : s.Stays (c.acquire position roundUp s).2 := by
  simp only [acquire, Engine.acquireFor]
  rcases c.reader.loadSize? position roundUp with _ | size
  · exact Shared.stays_refl hp
  · exact Shared.stays_of_store hp rfl rfl rfl rfl

theorem Shared.gains_arrive (hp : s.store.slots.Proper) (b : Block) (offset : UInt64) (s' : Shared)
    (made : List Handle) (hslots : s'.store.slots = s.store.slots)
    (hresults : s'.store.results = s.store.results)
    (hmemory : s'.memory = (s.memory.adopt b offset).2) (hh : s'.handles = s.handles ++ made) :
    s.Turns s' s.store.occupant? s.store.results 1 made [] ∧
      ∃ chunk, s'.memory.chunk? s.memory.chunks.size = some chunk ∧ chunk.capacity = b.capacity ∧
        chunk.references = 1 := by
  refine ⟨⟨.of_slots hp hslots hresults, ?_, ?_, ?_, hh⟩, .ofBlock b offset, ?_, rfl, rfl⟩
  · exact hmemory ▸ Memory.ages_adopt _ b offset
  · exact hmemory ▸ Memory.spares_adopt _ b offset []
  · rw [hmemory, Memory.size_adopt]
  · rw [hmemory, Memory.chunk?_adopt, if_pos rfl]

theorem Stage.step_goes {k : ChunkId} {c : Conduct} {x x' : Stage} (hp : s.store.slots.Proper)
    (hs : x.step k c s = some (x', s')) : Goes k s x x' s' := by
  have hrefl := Shared.stays_refl hp
  have hcount {store : Store} {e : Event} (h : s.store.Stays store) :
      s.Stays (s.onStore fun _ ↦ store.record e) :=
    Shared.turns_onStore (h.stays (.of_slots h.proper rfl rfl))
  have hpublish (t : Ticket) (chunk : ChunkRef) (settled : Bool) :
      Goes k s (publish t chunk settled) (if settled then evict chunk .compare else replace chunk)
        (s.onStore (·.publish t (.ok chunk))) :=
    .publish (Shared.turns_onStore (.of_slots hp rfl rfl))
  cases steps hs with
  | hit hr =>
    exact .hit (.inl rfl) (Store.occupant?_of_resident hr) (hcount (Store.stays_touch hp hr))
  | hitLate hr =>
    exact .hit (.inr rfl) (Store.occupant?_of_resident hr) (hcount (Store.stays_touch hp hr))
  | join ht =>
    exact .join (.inl rfl) (Store.occupant?_eq_loading.2 ht) (hcount (Store.stays_refl hp))
  | joinLate ht =>
    exact .join (.inr rfl) (Store.occupant?_eq_loading.2 ht) (hcount (Store.stays_refl hp))
  | miss hn => exact .miss (Store.occupant?_eq_none.2 hn) hrefl
  | begin hn =>
    rw [Store.claim_of_free hn]
    exact .begin (Store.occupant?_eq_none.2 hn)
      (Shared.turns_onStore (Store.becomes_insert hp k (.loading _) rfl rfl))
  | receive hr => exact .receive (r := .ok _) hr
  | receiveError hr => exact .receive (r := .error _) hr
  | borrow => exact .borrow (c.stays_acquire hp _ _)
  | refuse => exact .refuse (c.stays_acquire hp _ _)
  | @arrive t b b' =>
    obtain ⟨hturns, hw⟩ := Shared.gains_arrive hp b' k.position
      (s.withEngine (s.engine.arrive k b').2) [] rfl rfl rfl (List.append_nil _).symm
    exact .arrive hturns hw
  | fail => exact .fail (Shared.stays_of_store hp rfl rfl rfl rfl)
  | settle ho =>
    exact .settle (Store.owns_iff_occupant?.1 ho)
      (Shared.turns_onStore (Store.becomes_settle hp ho _ _))
  | lose hn =>
    refine .lose fun hk ↦ ?_
    rw [Store.owns_iff_occupant?.2 hk] at hn
    cases hn
  | @publish t chunk => exact hpublish t chunk true
  | @withhold t chunk => exact hpublish t chunk false
  | replace => exact .replace (Shared.turns_retire hp _ .replaced)
  | leave => exact .leave
  | pass hq =>
    obtain ⟨keys, h⟩ := Pass.step_removes hp hq
    exact .pass h
  | @clear t f =>
    have hstay : s.store.Stays (f.counted s.store) :=
      .of_slots hp (f.slots_counted s.store) (by cases f <;> rfl)
    have hclear := Store.frees_clearLoad hstay.proper k t
    unfold Store.Frees at hclear
    rw [hstay.occupants, hstay.results] at hclear
    exact .clear (Shared.turns_onStore (hstay.trans hclear))
  | announce => exact .announce (Shared.turns_onStore (.of_slots hp rfl rfl))

/-- The steps of a read past the table. -/
inductive Direct.Goes (asked : ChunkId) (s : Shared) : Direct → Direct → Shared → Prop where
  | borrow {b : Block} {s' : Shared} (h : s.Stays s') : Goes asked s borrow (read b) s'
  | refuse {f : Failure} {s' : Shared} (h : s.Stays s') : Goes asked s borrow (ended (.error f)) s'
  | arrive {b : Block} {s' : Shared}
      (h : s.Turns s' s.store.occupant? s.store.results 1 [⟨s.memory.chunks.size, some asked⟩] []) :
      Goes asked s (read b) (ended (.ok s.memory.chunks.size)) s'
  | fail {b : Block} {f : Failure} {s' : Shared} (h : s.Stays s') :
      Goes asked s (read b) (ended (.error f)) s'

theorem Direct.step_goes {asked k : ChunkId} {c : Conduct} {x x' : Direct}
    (hp : s.store.slots.Proper) (hs : x.step asked k c s = some (x', s')) :
    Goes asked s x x' s' := by
  cases steps hs with
  | borrow => exact .borrow (c.stays_acquire hp _ _)
  | refuse => exact .refuse (c.stays_acquire hp _ _)
  | @arrive b b' =>
    exact .arrive (Shared.gains_arrive hp b' k.position ((s.onMemory fun _ ↦
      (s.memory.adopt b' k.position).2).addHandle ⟨_, some asked⟩) _ rfl rfl rfl rfl).1
  | fail => exact .fail (Shared.stays_of_store hp rfl rfl rfl rfl)

inductive Call.Goes (s : Shared) : Call → Call → Shared → Prop where
  | stage {k : ChunkId} {reader : Nat} {goal : Goal} {x x' : Stage} {s' : Shared}
      (h : Stage.Goes k s x x' s') : Goes s (get k reader goal x) (get k reader goal x') s'
  | take {k asked : ChunkId} {reader left : Nat} {attempts : UInt32} {c : ChunkRef} {s' : Shared}
      (h : s.Turns s' s.store.occupant? s.store.results 0 [⟨c, some asked⟩] [c])
      (hc : ∃ chunk, s.memory.chunk? c = some chunk ∧ chunk.references ≠ 0) :
      Goes s (get k reader (.handle asked attempts left) (.answered (.ok c)))
        (get k reader (.handle asked attempts left) (.holding c)) s'
  | retry {k asked : ChunkId} {reader left : Nat} {attempts : UInt32} {c : ChunkRef} :
      Goes s (get k reader (.handle asked attempts (left + 1)) (.answered (.ok c)))
        (get k reader (.handle asked attempts left) .seek) s
  | refuse {k asked : ChunkId} {reader left : Nat} {attempts : UInt32} {c : ChunkRef}
      {f : Failure} :
      Goes s (get k reader (.handle asked attempts left) (.answered (.ok c)))
        (get k reader (.handle asked attempts left) (.answered (.error f))) s
  | direct {asked k : ChunkId} {reader : Nat} {x x' : Direct} {s' : Shared}
      (h : Direct.Goes asked s x x' s') :
      Goes s (direct asked k reader x) (direct asked k reader x') s'
  | invalidate {k : ChunkId} {x x' : Removal} {s' : Shared} {keys : ChunkId → Bool}
      (h : s.Removes s' keys x.unpaid x'.unpaid x.held x'.held) :
      Goes s (invalidate k x) (invalidate k x') s'
  | sweep {matches? : ChunkId → Bool} {x x' : Sweep} {s' : Shared} {keys : ChunkId → Bool}
      (h : s.Removes s' keys x.unpaid x'.unpaid x.held x'.held) :
      Goes s (sweep matches? x) (sweep matches? x') s'
  | evict {p q : Pass} {s' : Shared} {keys : ChunkId → Bool}
      (h : s.Removes s' keys p.unpaid q.unpaid p.held q.held) : Goes s (evict p) (evict q) s'

theorem Call.step_goes {c : Conduct} {x x' : Call} (hp : s.store.slots.Proper)
    (hs : x.step c s = some (x', s')) : Goes s x x' s' := by
  cases steps hs with
  | stage h => exact .stage (Stage.step_goes hp h)
  | @take _ _ _ _ _ chunk hr =>
    have hages := Memory.ages_reference s.memory chunk
    have hspares := Memory.spares_reference s.memory chunk
    have hsize := Memory.size_reference s.memory chunk
    rcases Memory.reference_cases s.memory chunk with ⟨found, hc, hz, -, -⟩ | ⟨hne, -⟩
    · exact .take ⟨Store.stays_refl hp, hages, hspares, hsize, rfl⟩ ⟨found, hc, hz⟩
    · exact absurd hr hne
  | retry => exact .retry
  | exhaust | overflow => exact .refuse
  | direct h => exact .direct (Direct.step_goes hp h)
  | invalidate h =>
    obtain ⟨keys, h⟩ := Removal.step_removes hp h
    exact .invalidate h
  | sweep h =>
    obtain ⟨keys, h⟩ := Sweep.step_removes hp h
    exact .sweep h
  | evict h =>
    obtain ⟨keys, h⟩ := Pass.step_removes hp h
    exact .evict h

def Stage.tells? (k : ChunkId) : Stage → Option (Ticket × Except Error ChunkRef)
  | publish t c _ => some (t, .ok c)
  | announce t f => some (t, .error (f.told k))
  | _ => none

def Call.tells? : Call → Option (Ticket × Except Error ChunkRef)
  | get k _ _ stage => stage.tells? k
  | _ => none

inductive Call.Effect (s : Shared) (x x' : Call) (s' : Shared) : Prop where
  | keep (h : s.store.Stays s'.store)
  | begin {k : ChunkId} {reader : Nat} {goal : Goal} (hx : x = get k reader goal .claim)
      (hx' : x' = get k reader goal (.borrow s.store.results.size))
      (hk : s.store.occupant? k = none)
      (h : s.store.Becomes s'.store
        (Function.update s.store.occupant? k (some (.loading s.store.results.size)))
        (s.store.results.push none))
  | settle {k : ChunkId} {reader : Nat} {goal : Goal} {t : Ticket} {c : ChunkRef} {w : Nat}
      (hx : x = get k reader goal (.settle t c w))
      (hx' : x' = get k reader goal (.publish t c true))
      (hk : s.store.occupant? k = some (.loading t))
      (h : s.store.Becomes s'.store (Function.update s.store.occupant? k (some (.resident c w)))
        s.store.results)
  | free {keys : ChunkId → Bool} (h : s.store.Frees s'.store keys)
  | tell {t : Ticket} {r : Except Error ChunkRef} (hx : x.tells? = some (t, r))
      (h : s.store.Becomes s'.store s.store.occupant? (s.store.results.setIfInBounds t (some r)))

namespace Call
variable {x x' : Call} {k : ChunkId} {t : Ticket} {c : ChunkRef} {w : Nat}

theorem Goes.effect (hp : s.store.slots.Proper) (h : Goes s x x' s') : Effect s x x' s' := by
  have hrefl := Store.stays_refl hp
  cases h with
  | stage h =>
    cases h with
    | hit _ _ h | join _ _ h | miss _ h | borrow h | refuse h | arrive h _ | fail h | replace h =>
      exact .keep h.store
    | begin hk h => exact .begin rfl rfl hk h.store
    | settle hk h => exact .settle rfl rfl hk h.store
    | publish h | announce h => exact .tell rfl h.store
    | pass h => exact .free h.frees.store
    | clear h => exact .free h.store
    | receive _ | lose _ | leave => exact .keep hrefl
  | take h => exact .keep h.store
  | retry | refuse => exact .keep hrefl
  | direct h =>
    cases h with
    | borrow h | refuse h | arrive h | fail h => exact .keep h.store
  | invalidate h | sweep h | evict h => exact .free h.frees.store

theorem Effect.loading (h : Effect s x x' s') (hk : s'.store.occupant? k = some (.loading t)) :
    s.store.occupant? k = some (.loading t) ∨
    (∃ reader goal, x = get k reader goal .claim ∧ x' = get k reader goal (.borrow t)) ∧
      t = s.store.results.size := by
  cases h with
  | keep h => exact .inl (h.occupants ▸ hk)
  | begin hx hx' _ h =>
    rw [h.occupants, Function.update_apply] at hk
    split at hk
    · cases hk
      rename_i he
      subst he
      exact .inr ⟨⟨_, _, hx, hx'⟩, rfl⟩
    · exact .inl hk
  | settle hx hx' _ h =>
    rw [h.occupants, Function.update_apply] at hk
    split at hk
    · cases hk
    · exact .inl hk
  | free h =>
    rw [h.occupants, Store.Occupants.free] at hk
    split at hk
    · cases hk
    · exact .inl hk
  | tell _ h => exact .inl (h.occupants ▸ hk)

theorem Effect.resident (h : Effect s x x' s') (hk : s'.store.occupant? k = some (.resident c w)) :
    s.store.occupant? k = some (.resident c w) ∨
    ∃ reader goal t, x = get k reader goal (.settle t c w) ∧
      x' = get k reader goal (.publish t c true) ∧ s.store.occupant? k = some (.loading t) := by
  cases h with
  | keep h => exact .inl (h.occupants ▸ hk)
  | begin _ _ _ h =>
    rw [h.occupants, Function.update_apply] at hk
    split at hk
    · cases hk
    · exact .inl hk
  | settle hx hx' hk' h =>
    rw [h.occupants, Function.update_apply] at hk
    split at hk
    · cases hk
      rename_i he
      subst he
      exact .inr ⟨_, _, _, hx, hx', hk'⟩
    · exact .inl hk
  | free h =>
    rw [h.occupants, Store.Occupants.free] at hk
    split at hk
    · cases hk
    · exact .inl hk
  | tell _ h => exact .inl (h.occupants ▸ hk)

theorem Effect.result (h : Effect s x x' s') {r : Except Error ChunkRef}
    (hr : s'.store.result? t = some r) : s.store.result? t = some r ∨ x.tells? = some (t, r) := by
  cases h with
  | keep h => exact .inl (Store.result?_of_results h.results ▸ hr)
  | begin _ _ _ h => exact .inl (Store.result?_of_push h.results ▸ hr)
  | settle _ _ _ h => exact .inl (Store.result?_of_results h.results ▸ hr)
  | free h => exact .inl (Store.result?_of_results h.results ▸ hr)
  | @tell t' r' hx h =>
    by_cases ht : t' < s.store.results.size
    · rw [Store.result?_of_set h.results ht] at hr
      split at hr
      · cases hr
        rename_i he
        exact .inr (he ▸ hx)
      · exact .inl hr
    · have hsame : s'.store.results = s.store.results := by
        rw [h.results]
        exact Array.setIfInBounds_eq_of_size_le (Nat.le_of_not_lt ht)
      exact .inl (Store.result?_of_results hsame ▸ hr)

end Call

def Call.given? : Call → Option ChunkRef
  | get _ _ _ (.answered (.ok c)) | get _ _ _ (.holding c) | direct _ _ _ (.ended (.ok c)) => some c
  | _ => none

/-- Whatever a call does to the table, it gives up references that it holds, and it makes handles on
what it is given, which it was given before and has a reference, or which comes. -/
inductive Call.Turns (s : Shared) (x x' : Call) (s' : Shared) : Prop where
  | intro {occupants : Store.Occupants} {results : Store.Results} {come : Nat} {made : List Handle}
      {touched : List ChunkRef} (turns : s.Turns s' occupants results come made touched)
      (begun : s.store.results.size ≤ results.size)
      (given : ∀ h ∈ made, x'.given? = some h.chunk ∧ ((x.given? = some h.chunk ∧
        ∃ chunk, s.memory.chunk? h.chunk = some chunk ∧ chunk.references ≠ 0) ∨
        (h.chunk = s.memory.chunks.size ∧ come = 1)))
      (held : ∀ c ∈ touched, c ∈ x.held ∨ ∃ h ∈ made, h.chunk = c)

theorem Call.Goes.turns {x x' : Call} (hp : s.store.slots.Proper) (h : Goes s x x' s') :
    Turns s x x' s' := by
  have hnone {occupants : Store.Occupants} {results : Store.Results} {come : Nat}
      {touched : List ChunkRef} (ht : s.Turns s' occupants results come [] touched)
      (hle : s.store.results.size ≤ results.size) (hheld : touched ⊆ x.held) :
      Turns s x x' s' :=
    .intro ht hle (fun h hm ↦ absurd hm List.not_mem_nil) fun c hc ↦ .inl (hheld hc)
  have hstay (hs : s.Stays s') : Turns s x x' s' := hnone hs (Nat.le_refl _) (List.nil_subset _)
  cases h with
  | stage h =>
    cases h with
    | hit _ _ h | join _ _ h | miss _ h | borrow h | refuse h | fail h => exact hstay h
    | arrive h _ | settle _ h | clear h => exact hnone h (Nat.le_refl _) (List.nil_subset _)
    | begin _ h | publish h | announce h => exact hnone h (by simp) (List.nil_subset _)
    | replace h => exact hnone h (Nat.le_refl _) (List.Subset.refl _)
    | pass h => exact hnone h.frees (Nat.le_refl _) (List.Subset.refl _)
    | receive _ | lose _ | leave => exact hstay (Shared.stays_refl hp)
  | take h hc =>
    refine .intro h (Nat.le_refl _) (fun h hm ↦ ?_) fun c hc ↦ .inr ⟨_, List.mem_cons_self, ?_⟩
    · obtain rfl := List.mem_singleton.1 hm
      exact ⟨rfl, .inl ⟨rfl, hc⟩⟩
    · exact (List.mem_singleton.1 hc).symm
  | retry | refuse => exact hstay (Shared.stays_refl hp)
  | direct h =>
    cases h with
    | borrow h | refuse h | fail h => exact hstay h
    | arrive h =>
      refine .intro h (Nat.le_refl _) (fun h hm ↦ ?_) fun c hc ↦ absurd hc List.not_mem_nil
      obtain rfl := List.mem_singleton.1 hm
      exact ⟨rfl, .inr ⟨rfl, rfl⟩⟩
  | invalidate h | sweep h | evict h => exact hnone h.frees (Nat.le_refl _) (List.Subset.refl _)

/-- Chunks and loads are only ever added, and each key stays in its shard. -/
structure Shared.Grows (s s' : Shared) : Prop where
  proper : s'.store.slots.Proper
  home : s'.store.slots.home = s.store.slots.home
  shardCount : s'.store.slots.shardCount = s.store.slots.shardCount
  ages : s.memory.Ages s'.memory
  chunks : s.memory.chunks.size ≤ s'.memory.chunks.size
  results : s.store.results.size ≤ s'.store.results.size

namespace Shared

theorem grows_refl (hp : s.store.slots.Proper) : s.Grows s :=
  ⟨hp, rfl, rfl, Memory.ages_refl _, Nat.le_refl _, Nat.le_refl _⟩

theorem Grows.trans {s'' : Shared} (h : s.Grows s') (h' : s'.Grows s'') : s.Grows s'' :=
  ⟨h'.proper, h'.home.trans h.home, h'.shardCount.trans h.shardCount, h.ages.trans h'.ages,
    h.chunks.trans h'.chunks, h.results.trans h'.results⟩

theorem Turns.grows {occupants : Store.Occupants} {results : Store.Results} {come : Nat}
    {made : List Handle} {touched : List ChunkRef}
    (h : s.Turns s' occupants results come made touched)
    (hr : s.store.results.size ≤ results.size) : s.Grows s' :=
  ⟨h.store.proper, h.store.home, h.store.shardCount, h.ages, h.size ▸ Nat.le_add_right _ _,
    h.store.results ▸ hr⟩

end Shared

theorem Call.Goes.grows {x x' : Call} (hp : s.store.slots.Proper) (h : Goes s x x' s') :
    s.Grows s' := by
  obtain ⟨hturns, hle, -, -⟩ := h.turns hp
  exact hturns.grows hle

end

theorem Start.call_cases (c : Start) :
    (∃ k reader goal x, c.call = .get k reader goal x ∧
      (x = .seek ∨ ∃ f, x = .answered (.error f))) ∨
    (∃ asked k reader, c.call = .direct asked k reader .borrow) ∨
    (∃ k, c.call = .invalidate k .detach) ∨ (∃ matches?, c.call = .sweep matches? (.clear 0 [])) ∨
    c.call = .evict .compare := by
  cases c with
  | get k reader => exact .inl ⟨k, reader, .chunk, .seek, rfl, .inl rfl⟩
  | rebuffer a reader position =>
    simp only [Start.call, Call.rebuffer]
    split
    · refine .inl ⟨_, _, _, _, rfl, ?_⟩
      split
      · exact .inr ⟨_, rfl⟩
      · exact .inl rfl
    · exact .inr (.inl ⟨_, _, _, rfl⟩)
  | invalidate k => exact .inr (.inr (.inl ⟨k, rfl⟩))
  | sweep matches? => exact .inr (.inr (.inr (.inl ⟨matches?, rfl⟩)))
  | evict => exact .inr (.inr (.inr (.inr rfl)))

namespace Traffic

inductive Goes (t : Traffic) : Move → Traffic → Prop where
  | start (c : Start) : Goes t (.start c) { t with calls := t.calls ++ [c.call] }
  | advance {i : Nat} {conduct : Conduct} {c c' : Call} {s : Shared} (hi : t.calls[i]? = some c)
      (h : c.Goes t.shared c' s) (hs : c.step conduct t.shared = some (c', s)) :
      Goes t (.advance i conduct) ⟨s, t.calls.set i c'⟩
  /-- What is done with handles, readers and counters. -/
  | other {m : Move} {s : Shared} (store : t.shared.store.Stays s.store)
      (ages : t.shared.memory.Ages s.memory)
      (size : s.memory.chunks.size = t.shared.memory.chunks.size)
      (handles : ∀ h ∈ s.handles, (∃ h' ∈ t.shared.handles, h'.chunk = h.chunk) ∨
        m = .reference h.chunk)
      (spares : ∀ c chunk, t.shared.memory.chunk? c = some chunk →
        (∀ h ∈ t.shared.handles, h.chunk ≠ c) →
        (s.memory.chunk? c = some chunk ∧ ∀ h ∈ s.handles, h.chunk ≠ c) ∨
        (chunk.references ≠ 0 ∧ ∃ h ∈ s.handles, h.chunk = c))
      (hm : ∀ i conduct, m ≠ .advance i conduct) : Goes t m ⟨s, t.calls⟩

theorem step_goes {t u : Traffic} {m : Move} (hp : t.shared.store.slots.Proper)
    (hs : t.step m = some u) : t.Goes m u := by
  have hold (h : Handle) (hm : h ∈ t.shared.handles) :
      ∃ h' ∈ t.shared.handles, h'.chunk = h.chunk := ⟨h, hm, rfl⟩
  cases steps hs with
  | start c => exact .start c
  | advance hi hstep => exact .advance hi (Call.step_goes hp hstep) hstep
  | @reference chunk hr =>
    refine .other (Store.stays_refl hp) (Memory.ages_reference _ chunk)
      (Memory.size_reference _ chunk) (fun h hm ↦ ?_) (fun c old hc hnone ↦ ?_) (by simp)
    · rcases List.mem_append.1 hm with hm | hm
      · exact .inl (hold h hm)
      · cases List.mem_singleton.1 hm
        exact .inr rfl
    · by_cases hcc : chunk = c
      · subst hcc
        refine .inr ⟨?_, _, List.mem_append_right _ List.mem_cons_self, rfl⟩
        rcases Memory.reference_cases t.shared.memory chunk with ⟨_, hc', hz, -, -⟩ | ⟨hne, -⟩
        · rwa [Option.some.inj (hc.symm.trans hc')]
        · exact absurd hr hne
      · have hspares := Memory.spares_reference t.shared.memory chunk
        refine .inl ⟨hspares c old hc (.inl (by simpa using Ne.symm hcc)), fun h hm ↦ ?_⟩
        rcases List.mem_append.1 hm with hm | hm
        · exact hnone h hm
        · cases List.mem_singleton.1 hm
          exact hcc
  | @share i handle hi =>
    have hmem := List.mem_of_getElem? hi
    refine .other (Store.stays_refl hp) (Memory.ages_share _ _) (Memory.size_share _ _)
      (fun h hm ↦ .inl ?_) (fun c chunk hc hnone ↦ .inl ⟨?_, fun h hm ↦ ?_⟩) (by simp)
    · rcases List.mem_append.1 hm with hm | hm
      · exact hold h hm
      · exact hold h (List.mem_singleton.1 hm ▸ hmem)
    · exact (Memory.chunk?_share_of_ne (hnone handle hmem)).trans hc
    · rcases List.mem_append.1 hm with hm | hm
      · exact hnone h hm
      · exact hnone h (List.mem_singleton.1 hm ▸ hmem)
  | @release i handle hi =>
    refine .other (Store.stays_refl hp) (Memory.ages_unreference _ _)
      (Memory.size_unreference _ _) (fun h hm ↦ .inl (hold h (List.eraseIdx_subset hm)))
      (fun c chunk hc hnone ↦ .inl ⟨?_, fun h hm ↦ hnone h (List.eraseIdx_subset hm)⟩) (by simp)
    have hne := hnone handle (List.mem_of_getElem? hi)
    exact Memory.spares_unreference _ _ c chunk hc (.inl (by simpa using Ne.symm hne))
  | refuse | closeReader =>
    exact .other (Store.stays_refl hp) (Memory.ages_refl _) rfl (fun h hm ↦ .inl (hold h hm))
      (fun c chunk hc hnone ↦ .inl ⟨hc, hnone⟩) (by simp)
  | resetCounters =>
    exact .other (.of_slots hp rfl rfl) (Memory.ages_refl _) rfl (fun h hm ↦ .inl (hold h hm))
      (fun c chunk hc hnone ↦ .inl ⟨hc, hnone⟩) (by simp)

theorem Goes.grows {t u : Traffic} {m : Move} (hp : t.shared.store.slots.Proper) (h : t.Goes m u) :
    t.shared.Grows u.shared := by
  cases h with
  | start c => exact Shared.grows_refl hp
  | advance _ h => exact h.grows hp
  | other store ages size =>
    exact ⟨store.proper, store.home, store.shardCount, ages, Nat.le_of_eq size.symm,
      Nat.le_of_eq (congrArg Array.size store.results).symm⟩

end Traffic
end ReadCache
