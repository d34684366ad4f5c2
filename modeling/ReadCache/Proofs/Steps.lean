import ReadCache.Proofs.Entries
import ReadCache.Proofs.Interleaving

namespace ReadCache

variable {s s' : Shared}

inductive Pass.Steps (s : Shared) : Pass → Pass → Shared → Prop where
  | spare (hle : s.store.weightedSize ≤ s.store.capacity.toNat) : Steps s compare left s
  | queue (hlt : s.store.capacity.toNat < s.store.weightedSize) : Steps s compare enter s
  | enter (hfree : s.evicting = false) : Steps s enter weigh { s with evicting := true }
  | light (hle : s.store.weightedSize ≤ s.store.targetWeight) : Steps s weigh left s.endPass
  | heavy (hlt : s.store.targetWeight < s.store.weightedSize) : Steps s weigh (collect 0 []) s
  | collect {shard : Nat} {seen : List (ChunkId × Resident)}
      (hi : shard < s.store.slots.shardCount) :
      Steps s (collect shard seen) (collect (shard + 1) (seen ++ s.store.residentsIn shard)) s
  | empty {shard : Nat} (hi : s.store.slots.shardCount ≤ shard) :
      Steps s (collect shard []) left s.endPass
  | sort {shard : Nat} {seen : List (ChunkId × Resident)} (hi : s.store.slots.shardCount ≤ shard)
      (hseen : seen ≠ []) : Steps s (collect shard seen) (pick (batchOf s.store seen)) s
  | next {b : Batch} {k : ChunkId} {r : Resident} {rest : List (ChunkId × Resident)}
      (hrest : b.rest = (k, r) :: rest) (hlt : s.store.targetWeight < s.store.weightedSize) :
      Steps s (pick b) (take k r.chunk { b with rest }) s
  /-- The batch was of use: another round. -/
  | again {b : Batch} (hused : b.evicted ≠ 0)
      (hdone : b.rest = [] ∨ s.store.weightedSize ≤ s.store.targetWeight) :
      Steps s (pick b) weigh s
  /-- The weight went down without this pass. -/
  | leave {b : Batch} (hnone : b.evicted = 0) (hrest : b.rest ≠ [])
      (hle : s.store.weightedSize ≤ s.store.targetWeight) : Steps s (pick b) left s.endPass
  /-- The batch was of no use. -/
  | giveUp {b : Batch} (hnone : b.evicted = 0) (hrest : b.rest = []) :
      Steps s (pick b) left
        { s.endPass with gaveUp := if b.cut then s.gaveUp + 1 else s.gaveUp }
  | take {k : ChunkId} {r : Resident} {b : Batch}
      (hr : s.store.slots.get? k = some (.resident r)) :
      Steps s (take k r.chunk b) (discount r b) (s.onStore fun _ ↦ (s.store.detach k).2)
  /-- Another chunk is there, or none. -/
  | gone {k : ChunkId} {chunk : ChunkRef} {b : Batch}
      (hn : ∀ r, s.store.slots.get? k = some (.resident r) → r.chunk ≠ chunk) :
      Steps s (take k chunk b) (pick b) s
  | discount {r : Resident} {b : Batch} :
      Steps s (discount r b) (retire r.chunk b) (s.onStore (·.discount r))
  | retire {chunk : ChunkRef} {b : Batch} :
      Steps s (retire chunk b) (pick { b with evicted := b.evicted + 1 }) (s.retire chunk .size)

theorem Pass.steps {p q : Pass} (hs : p.step s = some (q, s')) : p.Steps s q s' := by
  cases p with
  | compare =>
    simp only [step, Option.some.injEq, Prod.mk.injEq] at hs
    obtain ⟨rfl, rfl⟩ := hs
    split
    · exact .spare ‹_›
    · exact .queue (Nat.lt_of_not_le ‹_›)
  | enter =>
    simp only [step] at hs
    split at hs <;> cases hs
    exact .enter (Bool.eq_false_of_not_eq_true ‹_›)
  | weigh =>
    simp only [step] at hs
    split at hs <;> cases hs
    · exact .light ‹_›
    · exact .heavy (Nat.lt_of_not_le ‹_›)
  | collect shard seen =>
    simp only [step] at hs
    split at hs
    · cases hs
      exact .collect ‹_›
    · have hi : s.store.slots.shardCount ≤ shard := Nat.le_of_not_lt ‹_›
      cases seen <;> cases hs
      · exact .empty hi
      · exact .sort hi (List.cons_ne_nil _ _)
  | pick b =>
    simp only [step, endBatch] at hs
    rcases hrest : b.rest with _ | ⟨⟨k, r⟩, rest⟩ <;>
      simp only [hrest, Bool.not_false, Bool.and_true, Bool.not_true, Bool.and_false,
        Bool.false_eq_true, if_false] at hs
    · split at hs <;> cases hs
      · exact .giveUp ‹_› hrest
      · exact .again ‹_› (.inl hrest)
    · split at hs
      · rename_i hle
        split at hs <;> cases hs
        · exact .leave ‹_› (hrest ▸ List.cons_ne_nil _ _) hle
        · exact .again ‹_› (.inr hle)
      · cases hs
        exact .next hrest (Nat.lt_of_not_le ‹_›)
  | take k chunk b =>
    simp only [step] at hs
    rcases Store.detachIf_cases s.store k chunk with ⟨r, hr, rfl, he⟩ | ⟨hn, he⟩ <;>
      rw [he] at hs <;> cases hs
    · exact .take hr
    · exact .gone hn
  | discount r b =>
    cases hs
    exact .discount
  | retire chunk b =>
    cases hs
    exact .retire
  | left => cases hs

namespace Failure
variable {store : Store} {k : ChunkId}

theorem proper_clearLoad (hp : store.slots.Proper) (f : Failure) (t : Ticket) :
    ((f.counted store).clearLoad k t).slots.Proper :=
  Store.proper_clearLoad ((f.slots_counted store).symm ▸ hp) t

theorem entries_clearLoad (hp : store.slots.Proper) (f : Failure) (t : Ticket) :
    ((f.counted store).clearLoad k t).entries = store.entries := by
  have hslots := f.slots_counted store
  rw [Store.entries_clearLoad (hslots.symm ▸ hp) t]
  simp only [Store.entries, Store.residents, hslots]

theorem alike_clearLoad (store : Store) (k : ChunkId) (f : Failure) (t : Ticket) :
    store.Alike ((f.counted store).clearLoad k t) := by
  obtain ⟨hweight, hsettings, hhome⟩ := Store.alike_clearLoad (f.counted store) k t
  cases f <;> exact ⟨hweight, hsettings, hhome⟩

end Failure

/-- The steps of a request for `k`, with the reader that `c` tells of. -/
inductive Stage.Steps (k : ChunkId) (c : Conduct) (s : Shared) : Stage → Stage → Shared → Prop where
  | hit {r : Resident} (hr : s.store.slots.get? k = some (.resident r)) :
      Steps k c s seek (answered (.ok r.chunk)) (s.onStore fun _ ↦ (s.store.touch k r).record .hit)
  /-- The chunk came between the two looks. -/
  | hitLate {r : Resident} (hr : s.store.slots.get? k = some (.resident r)) :
      Steps k c s claim (answered (.ok r.chunk)) (s.onStore fun _ ↦ (s.store.touch k r).record .hit)
  | join {t : Ticket} (ht : s.store.slots.get? k = some (.loading t)) :
      Steps k c s seek (await t) (s.onStore (·.record .hit))
  | joinLate {t : Ticket} (ht : s.store.slots.get? k = some (.loading t)) :
      Steps k c s claim (await t) (s.onStore (·.record .hit))
  | miss (hn : s.store.slots.get? k = none) : Steps k c s seek claim s
  | begin (hn : s.store.slots.get? k = none) :
      Steps k c s claim (borrow s.store.results.size)
        (s.onStore fun _ ↦ (s.store.claim k).2.record .miss)
  | receive {t : Ticket} {chunk : ChunkRef} (hr : s.store.result? t = some (.ok chunk)) :
      Steps k c s (await t) (answered (.ok chunk)) s
  | receiveError {t : Ticket} {e : Error} (hr : s.store.result? t = some (.error e)) :
      Steps k c s (await t) (answered (.error (.error e))) s
  | borrow {t : Ticket} {b : Block}
      (hb : (c.acquire k.position s.store.settings.roundUp s).1 = .ok b) :
      Steps k c s (borrow t) (read t b) (c.acquire k.position s.store.settings.roundUp s).2
  | refuse {t : Ticket} {f : Failure}
      (hf : (c.acquire k.position s.store.settings.roundUp s).1 = .error f) :
      Steps k c s (borrow t) (clear t f) (c.acquire k.position s.store.settings.roundUp s).2
  | arrive {t : Ticket} {b b' : Block} (hb : c.outcome b = (.ok (), b')) :
      Steps k c s (read t b) (settle t s.memory.chunks.size b'.capacity)
        (s.withEngine (s.engine.arrive k b').2)
  | fail {t : Ticket} {b b' : Block} {f : Failure} (hf : c.outcome b = (.error f, b'))
      (hstuck : f ≠ .stuck) :
      Steps k c s (read t b) (clear t f)
        { s.onMemory (·.giveBack b') with returned := none :: s.returned }
  | settle {t : Ticket} {chunk : ChunkRef} {weight : Nat} (ho : s.store.owns k t = true) :
      Steps k c s (settle t chunk weight) (publish t chunk true)
        (s.onStore fun _ ↦ (s.store.settle k t chunk weight).2)
  | lose {t : Ticket} {chunk : ChunkRef} {weight : Nat} (ho : s.store.owns k t = false) :
      Steps k c s (settle t chunk weight) (publish t chunk false) s
  | publish {t : Ticket} {chunk : ChunkRef} :
      Steps k c s (publish t chunk true) (evict chunk .compare)
        (s.onStore (·.publish t (.ok chunk)))
  | withhold {t : Ticket} {chunk : ChunkRef} :
      Steps k c s (publish t chunk false) (replace chunk) (s.onStore (·.publish t (.ok chunk)))
  | replace {chunk : ChunkRef} :
      Steps k c s (replace chunk) (answered (.ok chunk)) (s.retire chunk .replaced)
  | leave {chunk : ChunkRef} : Steps k c s (evict chunk .left) (answered (.ok chunk)) s
  | pass {chunk : ChunkRef} {p q : Pass} {s' : Shared} (hp : p.step s = some (q, s')) :
      Steps k c s (evict chunk p) (evict chunk q) s'
  | clear {t : Ticket} {f : Failure} :
      Steps k c s (clear t f) (announce t f)
        (s.onStore fun store ↦ (f.counted store).clearLoad k t)
  | announce {t : Ticket} {f : Failure} :
      Steps k c s (announce t f) (answered (.error f))
        (s.onStore (·.publish t (.error (f.told k))))

theorem Stage.steps {k : ChunkId} {c : Conduct} {x x' : Stage} (hs : x.step k c s = some (x', s')) :
    x.Steps k c s x' s' := by
  cases x with
  | seek =>
    simp only [step] at hs
    rcases Store.find?_cases s.store k with ⟨r, hr, he⟩ | ⟨t, ht, he⟩ | ⟨hn, he⟩ <;>
      rw [he] at hs <;> cases hs
    · exact .hit hr
    · exact .join ht
    · exact .miss hn
  | claim =>
    have hbegin := Steps.begin (c := c) (s := s) (k := k)
    simp only [step] at hs
    rcases Store.claim_cases s.store k with ⟨r, hr, he⟩ | ⟨t, ht, he⟩ | ⟨hn, he⟩ <;>
      rw [he] at hs hbegin <;> cases hs
    · exact .hitLate hr
    · exact .joinLate ht
    · exact hbegin hn
  | await t =>
    rcases hr : s.store.result? t with _ | (e | chunk) <;>
      simp only [step, Engine.receive, hr] at hs <;> cases hs
    · exact .receiveError hr
    · exact .receive hr
  | borrow t =>
    have hborrow := @Steps.borrow k c s t
    have hrefuse := @Steps.refuse k c s t
    simp only [step] at hs
    split at hs <;> rename_i he <;> rw [he] at hborrow hrefuse <;> cases hs
    · exact hborrow rfl
    · exact hrefuse rfl
  | read t b =>
    rcases c.read_eq k.position b s with ⟨b', hb, he⟩ | ⟨f, b', hf, he⟩ <;>
      simp only [step, he] at hs
    · cases hs
      exact .arrive hb
    · cases f <;> cases hs
      · exact .fail hf nofun
      · exact .fail hf nofun
  | settle t chunk weight =>
    simp only [step] at hs
    rcases Store.settle_cases s.store k t chunk weight with ⟨ho, hone⟩ | ⟨ho, he⟩
    · rw [hone] at hs
      cases hs
      exact .settle ho
    · rw [he] at hs
      cases hs
      exact .lose ho
  | publish t chunk settled =>
    cases settled <;> cases hs
    · exact .withhold
    · exact .publish
  | replace chunk =>
    cases hs
    exact .replace
  | evict chunk p =>
    rcases evict_cases hs with ⟨rfl, rfl, rfl⟩ | ⟨q, hq, rfl⟩
    · exact .leave
    · exact .pass hq
  | clear t f =>
    cases hs
    exact .clear
  | announce t f =>
    cases hs
    exact .announce
  | answered => cases hs
  | holding => cases hs

inductive Direct.Steps (asked k : ChunkId) (c : Conduct) (s : Shared) :
    Direct → Direct → Shared → Prop where
  | borrow {b : Block} (hb : (c.acquire k.position false s).1 = .ok b) :
      Steps asked k c s borrow (read b) (c.acquire k.position false s).2
  | refuse {f : Failure} (hf : (c.acquire k.position false s).1 = .error f) :
      Steps asked k c s borrow (ended (.error f)) (c.acquire k.position false s).2
  | arrive {b b' : Block} (hb : c.outcome b = (.ok (), b')) :
      Steps asked k c s (read b) (ended (.ok s.memory.chunks.size))
        ((s.onMemory fun _ ↦ (s.memory.adopt b' k.position).2).addHandle
          ⟨s.memory.chunks.size, some asked⟩)
  | fail {b b' : Block} {f : Failure} (hf : c.outcome b = (.error f, b')) (hstuck : f ≠ .stuck) :
      Steps asked k c s (read b) (ended (.error f))
        { s.onMemory (·.giveBack b') with returned := none :: s.returned }

theorem Direct.steps {asked k : ChunkId} {c : Conduct} {x x' : Direct}
    (hs : x.step asked k c s = some (x', s')) : x.Steps asked k c s x' s' := by
  cases x with
  | borrow =>
    have hborrow := @Steps.borrow asked k c s
    have hrefuse := @Steps.refuse asked k c s
    simp only [step] at hs
    split at hs <;> rename_i he <;> rw [he] at hborrow hrefuse <;> cases hs
    · exact hborrow rfl
    · exact hrefuse rfl
  | read b =>
    rcases c.read_eq k.position b s with ⟨b', hb, he⟩ | ⟨f, b', hf, he⟩ <;>
      simp only [step, he] at hs
    · cases hs
      exact .arrive hb
    · cases f <;> cases hs
      · exact .fail hf nofun
      · exact .fail hf nofun
  | ended => cases hs

inductive Removal.Steps (k : ChunkId) (s : Shared) : Removal → Removal → Shared → Prop where
  | take {r : Resident} (hr : s.store.slots.get? k = some (.resident r)) :
      Steps k s detach (discount r) (s.onStore fun _ ↦ (s.store.detach k).2)
  /-- A load that was in the slot loses it. -/
  | clear (hn : ∀ r, s.store.slots.get? k ≠ some (.resident r)) :
      Steps k s detach (ended false) (s.onStore fun _ ↦ (s.store.detach k).2)
  | discount {r : Resident} : Steps k s (discount r) (retire r.chunk) (s.onStore (·.discount r))
  | retire {chunk : ChunkRef} :
      Steps k s (retire chunk) (ended true) (s.retire chunk .explicit)

theorem Removal.steps {k : ChunkId} {x x' : Removal} (hs : x.step k s = some (x', s')) :
    x.Steps k s x' s' := by
  cases x with
  | detach =>
    have hclear := @Steps.clear k s
    rcases hk : s.store.slots.get? k with _ | (r | t) <;>
      simp only [step, Store.detach, hk] at hs <;> cases hs
    · exact hclear (by simp [hk])
    · exact .take hk
    · exact hclear (by simp [hk])
  | discount r =>
    cases hs
    exact .discount
  | retire chunk =>
    cases hs
    exact .retire
  | ended => cases hs

inductive Sweep.Steps (matches? : ChunkId → Bool) (s : Shared) : Sweep → Sweep → Shared → Prop where
  | clear {shard : Nat} {out : List Resident} (hi : shard < s.store.slots.shardCount) :
      Steps matches? s (clear shard out)
        (discount (shard + 1) (s.store.detachMatching shard matches?).1 out)
        (s.onStore fun _ ↦ (s.store.detachMatching shard matches?).2)
  | through {shard : Nat} {out : List Resident} (hi : s.store.slots.shardCount ≤ shard) :
      Steps matches? s (clear shard out) (retire out out.length) s
  | discount {shard : Nat} {r : Resident} {rest out : List Resident} :
      Steps matches? s (discount shard (r :: rest) out) (discount shard rest (out ++ [r]))
        (s.onStore (·.discount r))
  | next {shard : Nat} {out : List Resident} :
      Steps matches? s (discount shard [] out) (clear shard out) s
  | retire {r : Resident} {rest : List Resident} {n : Nat} :
      Steps matches? s (retire (r :: rest) n) (retire rest n) (s.retire r.chunk .explicit)
  | leave {n : Nat} : Steps matches? s (retire [] n) (ended n) s

theorem Sweep.steps {matches? : ChunkId → Bool} {x x' : Sweep}
    (hs : x.step matches? s = some (x', s')) : x.Steps matches? s x' s' := by
  cases x with
  | clear shard out =>
    simp only [step] at hs
    split at hs <;> cases hs
    · exact .clear ‹_›
    · exact .through (Nat.le_of_not_lt ‹_›)
  | discount shard rest out =>
    cases rest <;> cases hs
    · exact .next
    · exact .discount
  | retire rest n =>
    cases rest <;> cases hs
    · exact .leave
    · exact .retire
  | ended => cases hs

inductive Call.Steps (c : Conduct) (s : Shared) : Call → Call → Shared → Prop where
  | stage {k : ChunkId} {reader : Nat} {goal : Goal} {x x' : Stage} {s' : Shared}
      (h : x.step k c s = some (x', s')) :
      Steps c s (get k reader goal x) (get k reader goal x') s'
  | take {k asked : ChunkId} {reader left : Nat} {attempts : UInt32} {chunk : ChunkRef}
      (hr : (s.memory.reference chunk).1 = .ok true) :
      Steps c s (get k reader (.handle asked attempts left) (.answered (.ok chunk)))
        (get k reader (.handle asked attempts left) (.holding chunk))
        ((s.onMemory fun _ ↦ (s.memory.reference chunk).2).addHandle ⟨chunk, some asked⟩)
  /-- Too late, and another attempt is left. -/
  | retry {k asked : ChunkId} {reader left : Nat} {attempts : UInt32} {chunk : ChunkRef}
      (hr : (s.memory.reference chunk).1 = .ok false) :
      Steps c s (get k reader (.handle asked attempts (left + 1)) (.answered (.ok chunk)))
        (get k reader (.handle asked attempts left) .seek) s
  | exhaust {k asked : ChunkId} {reader : Nat} {attempts : UInt32} {chunk : ChunkRef}
      (hr : (s.memory.reference chunk).1 = .ok false) :
      Steps c s (get k reader (.handle asked attempts 0) (.answered (.ok chunk)))
        (get k reader (.handle asked attempts 0)
          (.answered (.error (.error (.cacheExhausted k.text attempts))))) s
  | overflow {k asked : ChunkId} {reader left : Nat} {attempts : UInt32} {chunk : ChunkRef}
      {f : Failure} (hr : (s.memory.reference chunk).1 = .error f) :
      Steps c s (get k reader (.handle asked attempts left) (.answered (.ok chunk)))
        (get k reader (.handle asked attempts left) (.answered (.error f))) s
  | direct {asked k : ChunkId} {reader : Nat} {x x' : Direct} {s' : Shared}
      (h : x.step asked k c s = some (x', s')) :
      Steps c s (direct asked k reader x) (direct asked k reader x') s'
  | invalidate {k : ChunkId} {x x' : Removal} {s' : Shared} (h : x.step k s = some (x', s')) :
      Steps c s (invalidate k x) (invalidate k x') s'
  | sweep {matches? : ChunkId → Bool} {x x' : Sweep} {s' : Shared}
      (h : x.step matches? s = some (x', s')) : Steps c s (sweep matches? x) (sweep matches? x') s'
  | evict {p q : Pass} {s' : Shared} (h : p.step s = some (q, s')) :
      Steps c s (evict p) (evict q) s'

theorem Call.steps {c : Conduct} {x x' : Call} (hs : x.step c s = some (x', s')) :
    x.Steps c s x' s' := by
  cases x with
  | get k reader goal stage =>
    rcases get_cases hs with ⟨asked, attempts, left, chunk, rfl, rfl, he⟩ | ⟨stage', hq, rfl⟩
    · have htake := @Steps.take c s k asked reader left attempts chunk
      unfold takeHandle at he
      split at he <;> rename_i hr
      · rw [hr] at htake
        cases he
        exact htake rfl
      · split at he <;> cases he
        · exact .exhaust (congrArg Prod.fst hr)
        · exact .retry (congrArg Prod.fst hr)
      · cases he
        exact .overflow (congrArg Prod.fst hr)
    · exact .stage hq
  | direct asked k reader stage =>
    obtain ⟨⟨stage', _⟩, hq, he⟩ := Option.map_eq_some_iff.1 hs
    cases he
    exact .direct hq
  | invalidate k stage =>
    obtain ⟨⟨stage', _⟩, hq, he⟩ := Option.map_eq_some_iff.1 hs
    cases he
    exact .invalidate hq
  | sweep matches? stage =>
    obtain ⟨⟨stage', _⟩, hq, he⟩ := Option.map_eq_some_iff.1 hs
    cases he
    exact .sweep hq
  | evict p =>
    obtain ⟨⟨q, _⟩, hq, he⟩ := Option.map_eq_some_iff.1 hs
    cases he
    exact .evict hq

/-- What a step of a pass, a removal or a sweep does to what is shared. Which slots it may take out,
and what it goes on with, is not said. -/
inductive Shared.Drops (s : Shared) : Shared → Prop where
  | pass (evicting : Bool) (gaveUp : Nat) : Drops s { s with evicting, gaveUp }
  | detach (k : ChunkId) : Drops s (s.onStore fun _ ↦ (s.store.detach k).2)
  | clear (shard : Nat) (matches? : ChunkId → Bool) :
    Drops s (s.onStore fun _ ↦ (s.store.detachMatching shard matches?).2)
  | discount (r : Resident) : Drops s (s.onStore (·.discount r))
  | retire (c : ChunkRef) (cause : RemovalCause) : Drops s (s.retire c cause)

theorem Pass.step_drops {p q : Pass} (hs : p.step s = some (q, s')) : s.Drops s' := by
  cases steps hs with
  | take => exact .detach _
  | discount => exact .discount _
  | retire => exact .retire _ .size
  | _ => exact .pass _ _

theorem Removal.step_drops {k : ChunkId} {x x' : Removal} (hs : x.step k s = some (x', s')) :
    s.Drops s' := by
  cases steps hs with
  | take | clear => exact .detach k
  | discount => exact .discount _
  | retire => exact .retire _ .explicit

theorem Sweep.step_drops {matches? : ChunkId → Bool} {x x' : Sweep}
    (hs : x.step matches? s = some (x', s')) : s.Drops s' := by
  cases steps hs with
  | clear => exact .clear _ matches?
  | discount => exact .discount _
  | retire => exact .retire _ .explicit
  | through | next | leave => exact .pass s.evicting s.gaveUp

inductive Traffic.Steps (t : Traffic) : Move → Traffic → Prop where
  | start (c : Start) : Steps t (.start c) { t with calls := t.calls ++ [c.call] }
  | advance {i : Nat} {conduct : Conduct} {c c' : Call} {s : Shared} (hi : t.calls[i]? = some c)
      (h : c.step conduct t.shared = some (c', s)) :
      Steps t (.advance i conduct) ⟨s, t.calls.set i c'⟩
  | reference {chunk : ChunkRef} (hr : (t.shared.memory.reference chunk).1 = .ok true) :
      Steps t (.reference chunk) (t.onShared fun s ↦
        (s.onMemory fun _ ↦ (s.memory.reference chunk).2).addHandle ⟨chunk, none⟩)
  | refuse {chunk : ChunkRef} (hr : (t.shared.memory.reference chunk).1 ≠ .ok true) :
      Steps t (.reference chunk) t
  | share {i : Nat} {h : Handle} (hi : t.shared.handles[i]? = some h) :
      Steps t (.share i) (t.onShared fun s ↦ (s.onMemory (·.share h.chunk)).addHandle h)
  | release {i : Nat} {h : Handle} (hi : t.shared.handles[i]? = some h) :
      Steps t (.release i) (t.onShared fun s ↦
        { s.unreference h.chunk with handles := s.handles.eraseIdx i })
  | closeReader {i : Nat} : Steps t (.closeReader i)
      (t.onShared fun s ↦ { s with readers := s.readers.modify i Reader.close })
  | resetCounters : Steps t .resetCounters (t.onShared fun s ↦ s.withEngine s.engine.resetCounters)

theorem Traffic.steps {t u : Traffic} {m : Move} (hs : t.step m = some u) : t.Steps m u := by
  cases m with
  | start c =>
    cases hs
    exact .start c
  | advance i conduct =>
    obtain ⟨c, c', s, hi, hstep, rfl⟩ := advance_cases hs
    exact .advance hi hstep
  | reference chunk =>
    have htake := @Steps.reference t chunk
    cases hs
    simp only [onShared, takeReference] at htake ⊢
    split
    · rename_i he
      rw [he] at htake
      exact htake rfl
    · rename_i hne
      exact .refuse fun hr ↦ hne _ (Prod.ext hr rfl)
  | share i =>
    simp only [step] at hs
    split at hs <;> cases hs
    exact .share ‹_›
  | release i =>
    simp only [step] at hs
    split at hs <;> cases hs
    exact .release ‹_›
  | closeReader i =>
    cases hs
    exact .closeReader
  | resetCounters =>
    cases hs
    exact .resetCounters

end ReadCache
