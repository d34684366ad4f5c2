import ReadCache.Proofs.Invalidation
import ReadCache.Proofs.Loading

namespace ReadCache

def Failure.recorded : Failure → Counters → Counters
  | error _, c => c.record (.loadFailed 0)
  | panic, c | stuck, c => c

/-- A read that leaves the table in order, as each call on it does. -/
def PhysicalRead.Orderly {σ : Type} (read : PhysicalRead (Engine × σ)) : Prop :=
  ∀ position b e s, e.store.slots.Proper → (read position b (e, s)).2.1.store.slots.Proper

namespace Store
variable {s : Store} {k : ChunkId} {t : Ticket}

theorem residents_insert_loading (h : s.slots.Proper) (hk : s.slots.get? k = none) (t : Ticket) :
    residentsOf (s.slots.insert k (.loading t)).toList = s.residents := by
  obtain ⟨a, b, hab, hinsert⟩ := h.insert_free hk
  rw [hinsert, residents, hab]
  simp only [residentsOf_append, residentsOf_loading]

theorem residents_clearLoad (h : s.slots.Proper) (k : ChunkId) (t : Ticket) :
    (s.clearLoad k t).residents = s.residents := by
  unfold clearLoad
  split
  · rename_i ho
    obtain ⟨a, b, hab, -, herase⟩ := h.split_of_get?_some (owns_iff.1 ho)
    simp only [residents, herase, hab, residentsOf_append, residentsOf_loading]
  · rfl

theorem get?_clearLoad_self (h : s.slots.Proper) (k : ChunkId) (t : Ticket) :
    (s.clearLoad k t).slots.get? k = if s.owns k t then none else s.slots.get? k := by
  unfold clearLoad
  split
  · exact ShardedMap.get?_erase_self h.shards_pos k
  · rfl

theorem get?_clearLoad_ne {k' : ChunkId} (hne : k' ≠ k) :
    (s.clearLoad k t).slots.get? k' = s.slots.get? k' := by
  unfold clearLoad
  split
  · exact ShardedMap.get?_erase_ne _ hne.symm
  · rfl

end Store

namespace Engine
variable {σ : Type} {k : ChunkId} {e e' e'' : Engine} {r : Reader} {position : UInt64}
variable {roundUp : Bool} {s s' : σ} {f : Failure} {t : Ticket}

theorem proper_request (h : e.store.slots.Proper) (k : ChunkId) :
    (e.request k).2.store.slots.Proper := by
  have hfind := Store.proper_find? h k
  have hclaim := Store.proper_claim hfind k
  unfold request
  rcases hf : e.store.find? k with ⟨_ | found, store⟩ <;> rw [hf] at hfind hclaim
  · dsimp only at hclaim ⊢
    rcases hc : store.claim k with ⟨_ | _ | _, store⟩ <;> rw [hc] at hclaim <;> exact hclaim
  · exact hfind

theorem proper_evict (h : e.store.slots.Proper) (k : ChunkId) (c : ChunkRef) :
    (e.evict k c).2.store.slots.Proper := by
  unfold evict
  rcases Store.detachIf_cases e.store k c with ⟨r, -, -, he⟩ | ⟨-, he⟩ <;> rw [he]
  · exact h.erase k
  · exact h

theorem proper_evictBatch (h : e.store.slots.Proper) (target : Nat)
    (l : List (ChunkId × Resident)) : (e.evictBatch target l).2.store.slots.Proper := by
  induction l generalizing e with
  | nil => exact h
  | cons v l ih =>
    simp only [evictBatch]
    split
    · exact h
    · exact ih (proper_evict h v.1 v.2.chunk)

theorem proper_evictDown (h : e.store.slots.Proper) (target rounds : Nat) :
    (evictDown target rounds e).store.slots.Proper := by
  induction rounds generalizing e with
  | zero => exact h
  | succ rounds ih =>
    have hbatch := proper_evictBatch h target e.store.candidates
    simp only [evictDown]
    split
    · exact h
    · split
      · rename_i he
        rwa [he] at hbatch
      · rename_i he
        rw [he] at hbatch
        exact ih hbatch

theorem proper_evictIfNeeded (h : e.store.slots.Proper) : e.evictIfNeeded.store.slots.Proper := by
  unfold evictIfNeeded
  split
  · exact h
  · exact proper_evictDown h _ _

/-- The engine when a loaded block has come to its slot, and those who wait are told, but before
anything is taken out. -/
def settled (e : Engine) (k : ChunkId) (t : Ticket) (b : Block) : Engine where
  store := (((e.arrive k b).2.store.settle k t (e.arrive k b).1 b.capacity).2).publish t
    (.ok (e.arrive k b).1)
  memory := (e.arrive k b).2.memory

theorem land_of_owns {b : Block} (ho : e.store.owns k t = true) :
    e.land k t b = (e.memory.chunks.size, (e.settled k t b).evictIfNeeded) := by
  have howns : (e.arrive k b).2.store.owns k t = true := ho
  simp only [land, settled, Store.settle, howns, if_true]
  rfl

theorem land_of_lost {b : Block} (ho : e.store.owns k t = false) :
    e.land k t b =
      (e.memory.chunks.size, (e.settled k t b).retire e.memory.chunks.size .replaced) := by
  have howns : (e.arrive k b).2.store.owns k t = false := ho
  simp only [land, settled, Store.settle, howns, Bool.false_eq_true, if_false]
  rfl

theorem proper_settled (h : e.store.slots.Proper) (k : ChunkId) (t : Ticket) (b : Block) :
    (e.settled k t b).store.slots.Proper :=
  Store.proper_settle (s := e.store.record (.loaded 0)) h t e.memory.chunks.size b.capacity

theorem proper_finish (h : e.store.slots.Proper) (k : ChunkId) (t : Ticket)
    (loaded : Except Failure Block) : (e.finish k t loaded).2.store.slots.Proper := by
  rcases loaded with (error | _ | _) | b
  · exact Store.proper_clearLoad (s := e.store.record (.loadFailed 0)) h t
  · exact Store.proper_clearLoad h t
  · exact h
  · have hsettled := proper_settled h k t b
    simp only [finish]
    rcases ho : e.store.owns k t with _ | _
    · rwa [land_of_lost ho]
    · rw [land_of_owns ho]
      exact proper_evictIfNeeded hsettled

theorem proper_invalidateMatching (h : e.store.slots.Proper) (matches? : ChunkId → Bool) :
    (e.invalidateMatching matches?).2.store.slots.Proper := by
  rw [invalidateMatching_eq]
  exact h.keep fun k ↦ !matches? k

theorem proper_invalidate (h : e.store.slots.Proper) (k : ChunkId) :
    (e.invalidate k).2.store.slots.Proper := by
  rw [invalidate_eq h]
  exact proper_invalidateMatching h fun k' ↦ k' = k

theorem store_acquireFor (r : Reader) (position : UInt64) (roundUp : Bool) (e : Engine) (s : σ) :
    (acquireFor r position roundUp (e, s)).2.1.store = e.store := by
  simp only [acquireFor]
  split <;> rfl

theorem proper_loadBlock {read : PhysicalRead (Engine × σ)} (hread : read.Orderly)
    (h : e.store.slots.Proper) (r : Reader) (position : UInt64) (roundUp : Bool) (s : σ) :
    (loadBlock r read position roundUp (e, s)).2.1.store.slots.Proper := by
  have hacquire := store_acquireFor r position roundUp e s
  simp only [loadBlock, Action.bind_eq]
  generalize acquireFor r position roundUp (e, s) = acquired at hacquire ⊢
  obtain ⟨f | b, e₀, s₀⟩ := acquired <;> dsimp only at hacquire ⊢
  · rwa [hacquire]
  · have hafter := hread position b e₀ s₀ (by rwa [hacquire])
    simp only [readInto]
    generalize read position b (e₀, s₀) = answer at hafter ⊢
    obtain ⟨⟨_ | _, b'⟩, e₁, s₁⟩ := answer <;> exact hafter

theorem proper_getOrLoadWith {load : Action (Engine × σ) Block}
    (hload : ∀ e s, e.store.slots.Proper → (load (e, s)).2.1.store.slots.Proper)
    (h : e.store.slots.Proper) (k : ChunkId) (s : σ) :
    (getOrLoadWith k load (e, s)).2.1.store.slots.Proper := by
  have hrequest := proper_request h k
  simp only [getOrLoadWith]
  generalize e.request k = request at hrequest ⊢
  obtain ⟨_ | _ | t, e₀⟩ := request
  · exact hrequest
  · exact hrequest
  · exact proper_finish (hload e₀ s hrequest) k t _

/-- `e'` is `e` but for the slot of `k`, for what is counted, and for the blocks that went out of
the pool and came back. -/
structure Differs (k : ChunkId) (slot : Option Slot) (counted : Counters → Counters)
    (out back : Nat) (e e' : Engine) : Prop where
  slot : e'.store.slots.get? k = slot
  others : ∀ k', k' ≠ k → e'.store.slots.get? k' = e.store.slots.get? k'
  residents : e'.store.residents = e.store.residents
  weightedSize : e'.store.weightedSize = e.store.weightedSize
  clock : e'.store.clock = e.store.clock
  settings : e'.store.settings = e.store.settings
  chunks : e'.memory.chunks = e.memory.chunks
  counters : e'.store.counters = counted e.store.counters
  acquired : e'.memory.pool.acquired = e.memory.pool.acquired + out
  released : e'.memory.pool.released = e.memory.pool.released + back

variable {slot slot' : Option Slot} {counted counted' : Counters → Counters}
variable {out out' back back' : Nat}

theorem Differs.trans (h : e.Differs k slot counted out back e')
    (h' : e'.Differs k slot' counted' out' back' e'') :
    e.Differs k slot' (counted' ∘ counted) (out + out') (back + back') e'' where
  slot := h'.slot
  others k' hne := (h'.others k' hne).trans (h.others k' hne)
  residents := h'.residents.trans h.residents
  weightedSize := h'.weightedSize.trans h.weightedSize
  clock := h'.clock.trans h.clock
  settings := h'.settings.trans h.settings
  chunks := h'.chunks.trans h.chunks
  counters := by rw [h'.counters, h.counters]; rfl
  acquired := by rw [h'.acquired, h.acquired, Nat.add_assoc]
  released := by rw [h'.released, h.released, Nat.add_assoc]

theorem differs_of_store (k : ChunkId) (hstore : e'.store = e.store)
    (hchunks : e'.memory.chunks = e.memory.chunks)
    (hacquired : e'.memory.pool.acquired = e.memory.pool.acquired + out)
    (hreleased : e'.memory.pool.released = e.memory.pool.released + back) :
    e.Differs k (e.store.slots.get? k) id out back e' := by
  constructor <;> first | assumption | simp only [hstore, id, implies_true]

theorem differs_request (hp : e.store.slots.Proper) (hk : e.store.slots.get? k = none) :
    e.Differs k (some (.loading e.store.results.size)) (·.record .miss) 0 0 (e.request k).2 := by
  rw [request_free hk]
  constructor
  case slot => exact ShardedMap.get?_insert_self hp.shards_pos _ _
  case others => exact fun k' hne ↦ ShardedMap.get?_insert_ne _ _ hne.symm
  case residents => exact Store.residents_insert_loading hp hk _
  all_goals rfl

theorem differs_acquireFor (k : ChunkId) {result : Except Failure Block}
    (h : acquireFor r position roundUp (e, s) = (result, e', s')) :
    s' = s ∧ e.Differs k (e.store.slots.get? k) id result.isOk.toNat 0 e' := by
  simp only [acquireFor] at h
  split at h
  · cases h
    exact ⟨rfl, differs_of_store k rfl rfl rfl rfl⟩
  · simp only [Memory.acquire, Pool.acquire] at h
    split at h
    · cases h
      exact ⟨rfl, differs_of_store k rfl rfl rfl rfl⟩
    · split at h <;> cases h
      · exact ⟨rfl, differs_of_store k rfl rfl rfl rfl⟩
      · exact ⟨rfl, differs_of_store k rfl rfl rfl rfl⟩

theorem differs_giveBack (k : ChunkId) (e : Engine) (b : Block) :
    e.Differs k (e.store.slots.get? k) id 0 1 (e.onMemory (·.giveBack b)) := by
  have hreleased : (e.onMemory (·.giveBack b)).memory.pool.released =
      e.memory.pool.released + 1 := by
    simp only [onMemory, Memory.giveBack, Pool.release]
    split <;> rfl
  have hacquired : (e.onMemory (·.giveBack b)).memory.pool.acquired = e.memory.pool.acquired := by
    simp only [onMemory, Memory.giveBack, Pool.release]
    split <;> rfl
  exact differs_of_store k rfl rfl hacquired hreleased

theorem differs_record (k : ChunkId) (e : Engine) (event : Event) :
    e.Differs k (e.store.slots.get? k) (·.record event) 0 0 (e.onStore (·.record event)) := by
  constructor <;> intros <;> rfl

theorem differs_publish (k : ChunkId) (e : Engine) (t : Ticket) (result : Except Error ChunkRef) :
    e.Differs k (e.store.slots.get? k) id 0 0 (e.onStore (·.publish t result)) := by
  constructor <;> intros <;> rfl

theorem differs_clearLoad (hp : e.store.slots.Proper) (k : ChunkId) (t : Ticket) :
    e.Differs k (if e.store.owns k t then none else e.store.slots.get? k) id 0 0
      (e.onStore (·.clearLoad k t)) := by
  constructor
  case slot => exact Store.get?_clearLoad_self hp k t
  case others => exact fun k' hne ↦ Store.get?_clearLoad_ne hne
  case residents => exact Store.residents_clearLoad hp k t
  case weightedSize => exact (Store.alike_clearLoad e.store k t).weightedSize
  case settings => exact (Store.alike_clearLoad e.store k t).settings
  case clock =>
    show (e.store.clearLoad k t).clock = e.store.clock
    unfold Store.clearLoad
    split <;> rfl
  case counters =>
    show (e.store.clearLoad k t).counters = e.store.counters
    unfold Store.clearLoad
    split <;> rfl
  all_goals rfl

theorem finish_error (hp : e.store.slots.Proper) (k : ChunkId) (t : Ticket) (hf : f ≠ .stuck) :
    ∃ e', e.finish k t (.error f) = (.error f, e') ∧
      e.Differs k (if e.store.owns k t then none else e.store.slots.get? k) f.recorded 0 0 e' := by
  cases f with
  | error error =>
    have hcounted := differs_record k e (.loadFailed 0)
    have hcleared := differs_clearLoad (e := e.onStore (·.record (.loadFailed 0))) hp k t
    have htold := differs_publish k ((e.onStore (·.record (.loadFailed 0))).onStore
      (·.clearLoad k t)) t (.error error)
    rw [hcleared.slot] at htold
    exact ⟨_, rfl, (hcounted.trans hcleared).trans htold⟩
  | panic =>
    have hcleared := differs_clearLoad hp k t
    have htold := differs_publish k (e.onStore (·.clearLoad k t)) t
      (.error (.loadAbandoned k.text))
    rw [hcleared.slot] at htold
    exact ⟨_, rfl, hcleared.trans htold⟩
  | stuck => exact absurd rfl hf

/-- What failed while a block was read into, with the block handed back, or before there was one. -/
theorem loadBlock_error {read : PhysicalRead (Engine × σ)}
    (h : loadBlock r read position roundUp (e, s) = (.error f, e', s')) :
    (acquireFor r position roundUp (e, s) = (.error f, e', s')) ∨
    ∃ b b' e₀ e₁, acquireFor r position roundUp (e, s) = (.ok b, e₀, s) ∧
      read position b (e₀, s) = ((.error f, b'), e₁, s') ∧ e' = e₁.onMemory (·.giveBack b') := by
  simp only [loadBlock, Action.bind_eq] at h
  rcases ha : acquireFor r position roundUp (e, s) with ⟨f' | b, e₀, s₀⟩ <;> rw [ha] at h
  · exact .inl h
  · obtain ⟨rfl, -⟩ := differs_acquireFor ⟨"", "", 0⟩ ha
    simp only [readInto] at h
    rcases hread : read position b (e₀, s₀) with ⟨⟨f' | _, b'⟩, e₁, s₁⟩ <;> rw [hread] at h
    · cases h
      exact .inr ⟨b, b', e₀, e₁, rfl, hread, rfl⟩
    · cases h

/-- Whoever asks for the chunk next begins a load, and it is the new loader that is run. -/
def LoadsAnew (σ : Type) (e : Engine) (k : ChunkId) : Prop :=
  ∀ (load : Action (Engine × σ) Block) (s : σ), ∃ t e₀, e.request k = (.load t, e₀) ∧
    e.store.result? t = none ∧
    getOrLoadWith k load (e, s) =
      (((load (e₀, s)).2.1.finish k t (load (e₀, s)).1).1,
        ((load (e₀, s)).2.1.finish k t (load (e₀, s)).1).2, (load (e₀, s)).2.2)

theorem loadsAnew_of_free (hk : e.store.slots.get? k = none) : e.LoadsAnew σ k := by
  intro load s
  have hrequest := request_free hk
  refine ⟨_, _, hrequest, ?_, ?_⟩
  · rw [Store.result?, Array.getElem?_eq_none (Nat.le_refl _)]
    rfl
  · simp only [getOrLoadWith, hrequest]
    rfl

theorem getOrLoadWith_error (hp : e.store.slots.Proper) (hk : e.store.slots.get? k = none)
    {read : PhysicalRead (Engine × σ)} (hread : read.Orderly) (hf : f ≠ .stuck)
    (hload : loadBlock r read position roundUp ((e.request k).2, s) = (.error f, e'', s')) :
    ∃ e', getOrLoadWith k (loadBlock r read position roundUp) (e, s) = (.error f, e', s') ∧
      ((s' = s ∧ (acquireFor r position roundUp ((e.request k).2, s)).1 = .error f ∧
          e.Differs k none (f.recorded ∘ (·.record .miss)) 0 0 e') ∨
        ∃ b b' e₀ e₁, read position b (e₀, s) = ((.error f, b'), e₁, s') ∧
          e.Differs k (some (.loading e.store.results.size)) (·.record .miss) 1 0 e₀ ∧
          e₁.Differs k (if e₁.store.owns k e.store.results.size then none
            else e₁.store.slots.get? k) f.recorded 0 1 e') := by
  have hbegin := differs_request hp hk
  have hstart : (e.request k).1 = .load e.store.results.size := by rw [request_free hk]
  have hp₀ := proper_request hp k
  rcases hq : e.request k with ⟨lookup, e₀⟩
  rw [hq] at hbegin hstart hp₀ hload
  dsimp only at hbegin hstart hp₀ hload
  subst hstart
  have hp₁ : e''.store.slots.Proper := by
    have h := proper_loadBlock hread hp₀ r position roundUp s
    rwa [hload] at h
  obtain ⟨e', hfinish, hend⟩ := finish_error hp₁ k e.store.results.size hf
  refine ⟨e', by simp only [getOrLoadWith, hq, hload, hfinish], ?_⟩
  rcases loadBlock_error hload with hnone | ⟨b, b', e₁, e₂, hacquire, hfailed, rfl⟩
  · obtain ⟨rfl, hacquire⟩ := differs_acquireFor k hnone
    have hall := (hbegin.trans hacquire).trans hend
    -- Nobody came between the look at the slot and the try for a block.
    have howned : e''.store.owns k e.store.results.size = true := by
      rw [Store.owns_iff, hacquire.slot, hbegin.slot]
    rw [if_pos howned] at hall
    exact .inl ⟨rfl, by rw [hnone], hall⟩
  · obtain ⟨-, hout⟩ := differs_acquireFor k hacquire
    have hstarted := hbegin.trans hout
    rw [hbegin.slot] at hstarted
    exact .inr ⟨b, b', e₁, e₂, hfailed, hstarted, (differs_giveBack k e₂ b').trans hend⟩

end Engine

namespace Traffic
variable {σ : Type} {t u : Traffic} {log : List Tick} {k : ChunkId} {r : Reader}

/-- Wherever the other calls stand, a load that fails with an error or a panic gives just that
failure. If there was a block to read into, the read was made once. The load had taken the free slot
and the block for it, and what it does after the read is to free the slot if it is still its own, to
give the block back, and to count. So if the read itself does nothing to the table, all of it is as
it was. A handle is not asked for again, and the next who asks for the chunk loads it anew. -/
theorem failed_load_traceless (ht : t.Initial) (h : Records t log u)
    (hk : u.shared.store.slots.get? k = none)
    {read : PhysicalRead (Engine × σ)} (hread : read.Orderly) {s s' : σ} {f : Failure}
    (hf : f ≠ .stuck) {e : Engine}
    (hload : Engine.loadBlock r read k.position u.shared.store.settings.roundUp
      ((u.shared.engine.request k).2, s) = (.error f, e, s')) :
    let load := Engine.loadBlock r read k.position u.shared.store.settings.roundUp
    let ticket := u.shared.store.results.size
    ∃ e', Engine.getOrLoadWith k load (u.shared.engine, s) = (.error f, e', s') ∧
      ((s' = s ∧
          (Engine.acquireFor r k.position u.shared.store.settings.roundUp
            ((u.shared.engine.request k).2, s)).1 = .error f ∧
          u.shared.engine.Differs k none (f.recorded ∘ (·.record .miss)) 0 0 e') ∨
        ∃ b b' e₀ e₁, read k.position b (e₀, s) = ((.error f, b'), e₁, s') ∧
          u.shared.engine.Differs k (some (.loading ticket)) (·.record .miss) 1 0 e₀ ∧
          e₁.Differs k (if e₁.store.owns k ticket then none else e₁.store.slots.get? k)
            f.recorded 0 1 e' ∧
          (e₁ = e₀ →
            u.shared.engine.Differs k none (f.recorded ∘ (·.record .miss)) 1 1 e')) ∧
      (∀ (a : Access) (attempts : UInt32) (position : UInt64), a.reader = r →
        a.mode = .cached attempts → attempts ≠ 0 → a.chunkId position = k →
        a.rebuffer read position (u.shared.engine, s) = (.error f, e', s')) ∧
      (e'.store.slots.get? k = none → e'.LoadsAnew σ k) := by
  intro load ticket
  have hp : u.shared.engine.store.slots.Proper := h.proper ht.proper
  obtain ⟨e', hget, hcases⟩ := Engine.getOrLoadWith_error hp hk hread hf hload
  refine ⟨e', hget, ?_, fun a attempts position hreader hmode hattempts hkey ↦ ?_,
    Engine.loadsAnew_of_free⟩
  · refine hcases.imp_right ?_
    rintro ⟨b, b', e₀, e₁, hfailed, hbegin, hend⟩
    refine ⟨b, b', e₀, e₁, hfailed, hbegin, hend, ?_⟩
    rintro rfl
    have hall := hbegin.trans hend
    rwa [if_pos (Store.owns_iff.2 hbegin.slot)] at hall
  · obtain ⟨left, hleft⟩ : ∃ left, attempts.toNat = left + 1 :=
      Nat.exists_eq_succ_of_ne_zero fun hz ↦ hattempts (UInt32.toNat_inj.1 hz)
    have hstart : a.aligned position = k.position := by rw [← hkey]; rfl
    simp only [Access.rebuffer, hmode, hkey, hreader, hleft, hstart, Access.attempt_succ]
    rw [hget]

/-- A read that takes the slot from its own load, has another load the chunk, and then fails. -/
def outrunRead (r : Reader) (k : ChunkId) (f : Failure) : PhysicalRead (Engine × Unit) :=
  fun _ b (e, s) ↦
    ((.error f, b),
      (Engine.getOrLoadWith k (Engine.loadBlock r r.physicalRead k.position false)
        ((e.invalidate k).2, s)).2)

theorem outrunRead_orderly (r : Reader) (k : ChunkId) (f : Failure) :
    (outrunRead r k f).Orderly := by
  intro position b e s hp
  have hload (e : Engine) (s : Unit) (he : e.store.slots.Proper) :
      (Engine.loadBlock r r.physicalRead k.position false (e, s)).2.1.store.slots.Proper :=
    Engine.proper_loadBlock (fun _ _ _ _ he ↦ he) he r k.position false s
  have hcall := Engine.proper_getOrLoadWith hload (Engine.proper_invalidate hp k) k s
  simpa only [outrunRead] using hcall

/-- The read of one file fails with another file resident, after the chunk was loaded by somebody
else. That chunk stays, and the failed read is the one attempt of a call for a handle. -/
theorem failed_load_traceless_outrun :
    ∃ (t u : Traffic) (log : List Tick) (e' : Engine), t.Initial ∧ Records t log u ∧
      u.shared.store.slots.get? ((smallFile "b" 5).chunkId 0) = none ∧
      (Access.mk (smallFile "b" 5) (.cached 3) []).rebuffer
        (outrunRead (smallFile "b" 5) ((smallFile "b" 5).chunkId 0) .panic) 0
        (u.shared.engine, ()) = (.error .panic, e', ()) ∧
      e'.store.slots.get? ((smallFile "b" 5).chunkId 0) = some (.resident ⟨1, 5, 1⟩) := by
  let r := smallFile "b" 5
  let k := r.chunkId 0
  let read := outrunRead r k .panic
  let load (u : Traffic) := Engine.loadBlock r read k.position u.shared.store.settings.roundUp
  let panics (u : Traffic) : Bool :=
    match (load u ((u.shared.engine.request k).2, ())).1 with
    | .error f => f = .panic
    | .ok _ => false
  obtain ⟨t, u, log, ht, hrec, hk, hpanics, hslot⟩ :=
    exists_of_record { tight with capacity := 20 } ChunkId.hash (loadSmall 0 "a" 6 8)
      (fun _ u ↦ u.shared.store.slots.get? k = none ∧ panics u = true ∧
        (Engine.getOrLoadWith k (load u) (u.shared.engine, ())).2.1.store.slots.get? k =
          some (.resident ⟨1, 5, 1⟩)) (by decide +kernel)
  obtain ⟨e, hload⟩ : ∃ e, load u ((u.shared.engine.request k).2, ()) = (.error .panic, e, ()) := by
    simp only [panics] at hpanics
    generalize load u ((u.shared.engine.request k).2, ()) = loaded at hpanics ⊢
    obtain ⟨f | b, e, ⟨⟩⟩ := loaded
    · exact ⟨e, by rw [of_decide_eq_true hpanics]⟩
    · cases hpanics
  obtain ⟨e', hget, -, hattempt, -⟩ := failed_load_traceless ht hrec hk
    (outrunRead_orderly r k .panic) (by decide) hload
  refine ⟨t, u, log, e', ht, hrec, hk, hattempt _ 3 0 rfl rfl (by decide) (by decide), ?_⟩
  rwa [hget] at hslot

end Traffic
end ReadCache
