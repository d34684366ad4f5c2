import ReadCache.Proofs.Uninterrupted
import ReadCache.Proofs.Weights

namespace ReadCache

open Relation

namespace Store

theorem discountAll_eq (s : Store) (out : List (ChunkId × Resident)) :
    s.discountAll (out.map Prod.snd) =
      { s with weightedSize := s.weightedSize - weightOf out } := by
  induction out generalizing s with
  | nil => rfl
  | cons v out ih =>
    have hrest := ih (s.discount v.2)
    rw [weightOf_cons, ← Nat.sub_sub]
    exact hrest

theorem sweepShard_eq (s : Store) (i : Nat) (keys : ChunkId → Bool) :
    s.sweepShard i keys = ((s.matching i keys).map Prod.snd,
      { s with
        slots := s.slots.setShard i ((s.slots.shard i).filter fun b ↦ !keys b.1)
        weightedSize := s.weightedSize - weightOf (s.matching i keys) }) := by
  show ((s.matching i keys).map Prod.snd,
    (s.detachMatching i keys).2.discountAll ((s.matching i keys).map Prod.snd)) = _
  rw [discountAll_eq]
  rfl

end Store

namespace Removal

theorem uninterrupted (k : ChunkId) (s : Shared) :
    ∃ s', Uninterrupted (step k) (detach, s) (ended (s.engine.invalidate k).1, s') ∧
      s'.engine = (s.engine.invalidate k).2 ∧ s.SameCallers s' ∧ s'.evicting = s.evicting := by
  rcases hk : s.store.slots.get? k with _ | (r | t)
  · have hstep : step k s detach = some (ended false, s.onStore fun _ ↦ (s.store.detach k).2) := by
      simp only [step, Store.detach, hk]
    have hcall : s.engine.invalidate k = (false, s.engine.onStore fun _ ↦ (s.store.detach k).2) := by
      simp only [Engine.invalidate, Store.remove, Store.detach, hk]
      rfl
    rw [hcall]
    exact ⟨_, .single hstep, rfl, ⟨rfl, rfl⟩, rfl⟩
  · have hstep : step k s detach = some (discount r, s.onStore fun _ ↦ (s.store.detach k).2) := by
      simp only [step, Store.detach, hk]
    have hcall : s.engine.invalidate k =
        (true, (s.engine.onStore fun _ ↦ (s.store.detach k).2.discount r).retire r.chunk .explicit) := by
      simp only [Engine.invalidate, Store.remove, Store.detach, hk]
      rfl
    rw [hcall]
    exact ⟨_, .head hstep (.head rfl (.head rfl .refl)), rfl, ⟨rfl, rfl⟩, rfl⟩
  · have hstep : step k s detach = some (ended false, s.onStore fun _ ↦ (s.store.detach k).2) := by
      simp only [step, Store.detach, hk]
    have hcall : s.engine.invalidate k = (false, s.engine.onStore fun _ ↦ (s.store.detach k).2) := by
      simp only [Engine.invalidate, Store.remove, Store.detach, hk]
      rfl
    rw [hcall]
    exact ⟨_, .single hstep, rfl, ⟨rfl, rfl⟩, rfl⟩

end Removal

namespace Sweep
variable {matches? : ChunkId → Bool}

theorem discount_all (shard : Nat) (rest out : List Resident) (s : Shared) :
    Uninterrupted (step matches?) (discount shard rest out, s)
      (clear shard (out ++ rest), s.onStore (·.discountAll rest)) := by
  induction rest generalizing out s with
  | nil =>
    rw [List.append_nil]
    exact .single rfl
  | cons r rest ih =>
    have hrest := ih (out ++ [r]) (s.onStore (·.discount r))
    rw [List.append_assoc] at hrest
    exact .head rfl hrest

def shards (matches? : ChunkId → Bool) (l : List Nat) (out : List Resident) (s : Store) :
    List Resident × Store :=
  l.foldl (fun (out, s) i ↦ (out ++ (s.sweepShard i matches?).1, (s.sweepShard i matches?).2))
    (out, s)

theorem clear_shards (matches? : ChunkId → Bool) (shard n : Nat) (out : List Resident) (s : Shared)
    (h : shard + n = s.store.slots.shardCount) :
    let swept := shards matches? (List.range' shard n) out s.store
    Uninterrupted (step matches?) (clear shard out, s)
      (clear (shard + n) swept.1, s.onStore fun _ ↦ swept.2) ∧
      swept.2.slots.shardCount = s.store.slots.shardCount := by
  induction n generalizing shard out s with
  | zero => exact ⟨.refl, rfl⟩
  | succ n ih =>
    let one := s.store.sweepShard shard matches?
    have hcount : one.2.slots.shardCount = s.store.slots.shardCount := by
      simp only [one, Store.sweepShard_eq, ShardedMap.shardCount_setShard]
    have hclear : step matches? s (clear shard out) =
        some (discount (shard + 1) one.1 out,
          s.onStore fun _ ↦ (s.store.detachMatching shard matches?).2) := by
      simp only [step, show shard < s.store.slots.shardCount by omega, if_true]
      rfl
    obtain ⟨hrest, hcounts⟩ := ih (shard + 1) (out ++ one.1) (s.onStore fun _ ↦ one.2)
      ((show shard + 1 + n = _ by omega).trans hcount.symm)
    rw [Nat.add_right_comm, Nat.add_assoc] at hrest
    exact ⟨.head hclear ((discount_all _ _ _ _).trans hrest), hcounts.trans hcount⟩

theorem retire_all (matches? : ChunkId → Bool) (rest : List Resident) (n : Nat) (s : Shared) :
    ∃ s', Uninterrupted (step matches?) (retire rest n, s) (ended n, s') ∧
      s'.engine = s.engine.retireAll rest .explicit ∧ s.SameCallers s' ∧
      s'.evicting = s.evicting := by
  induction rest generalizing s with
  | nil => exact ⟨s, .single rfl, rfl, ⟨rfl, rfl⟩, rfl⟩
  | cons r rest ih =>
    obtain ⟨s', hrun, he, hsame, hev⟩ := ih (s.retire r.chunk .explicit)
    exact ⟨s', .head rfl hrun, he, ⟨hsame.handles, hsame.readers⟩, hev⟩

theorem uninterrupted (matches? : ChunkId → Bool) (s : Shared) :
    ∃ s', Uninterrupted (step matches?) (clear 0 [], s)
        (ended (s.engine.invalidateMatching matches?).1, s') ∧
      s'.engine = (s.engine.invalidateMatching matches?).2 ∧ s.SameCallers s' ∧
      s'.evicting = s.evicting := by
  obtain ⟨hclear, hcount⟩ := clear_shards matches? 0 _ [] s (Nat.zero_add _)
  rw [← List.range_eq_range', Nat.zero_add] at hclear
  have hswept : shards matches? (List.range s.store.slots.shardCount) [] s.store =
      s.store.sweep matches? := rfl
  rw [← List.range_eq_range', hswept] at hcount
  rw [hswept] at hclear
  let s₁ := s.onStore fun _ ↦ (s.store.sweep matches?).2
  have hend : step matches? s₁ (clear s.store.slots.shardCount (s.store.sweep matches?).1) =
      some (retire (s.store.sweep matches?).1 (s.store.sweep matches?).1.length, s₁) := by
    have hdone : ¬ s.store.slots.shardCount < s₁.store.slots.shardCount :=
      Nat.not_lt.2 (Nat.le_of_eq hcount)
    simp only [step, hdone, if_false]
  obtain ⟨s', hretire, he, hsame, hev⟩ :=
    retire_all matches? (s.store.sweep matches?).1 (s.store.sweep matches?).1.length s₁
  exact ⟨s', hclear.trans (.head hend hretire), he, ⟨hsame.handles, hsame.readers⟩, hev⟩

end Sweep

theorem Action.bind_eq {σ α β : Type} (x : Action σ α) (f : α → Action σ β) (s : σ) :
    (x >>= f) s = match x s with
      | (.ok a, s) => f a s
      | (.error e, s) => (.error e, s) := by
  show (ExceptT.bind x f) s = _
  simp only [ExceptT.bind, ExceptT.mk, bind, StateT.bind]
  rcases x s with ⟨_ | _, _⟩ <;> rfl

def Conduct.load (c : Conduct) (position : UInt64) (roundUp : Bool) :
    Action (Engine × Unit) Block :=
  Engine.loadBlock c.reader c.physicalRead position roundUp

theorem Conduct.load_eq (c : Conduct) (position : UInt64) (roundUp : Bool) (s : Shared) :
    c.load position roundUp (s.engine, ()) =
      match c.acquire position roundUp s with
      | (.ok b, s) => ((c.read position b s).1, (c.read position b s).2.engine, ())
      | (.error f, s) => (.error f, s.engine, ()) := by
  rw [load, Engine.loadBlock, Action.bind_eq]
  rcases ha : Engine.acquireFor c.reader position roundUp (s.engine, ()) with ⟨f | b, e, ⟨⟩⟩
  · simp only [acquire, ha]
    rfl
  · simp only [acquire, ha, read]
    rcases hr : Engine.readInto c.physicalRead position b (e, ()) with ⟨f | b', e', ⟨⟩⟩
    · simp only [Shared.withEngine, hr]
    · simp only [Shared.withEngine, hr]

theorem Stage.coherent_of_uninterrupted {k : ChunkId} {c : Conduct} {s s' : Shared} {x x' : Stage}
    (h : s.store.Coherent) (hx : x.owes = 0) (hr : Uninterrupted (step k c) (x, s) (x', s')) :
    s'.store.slots.Proper ∧ s'.store.weightedSize = s'.store.residentWeight + x'.owes ∧
      s'.store.settings = s.store.settings := by
  have hrun (a b : Stage × Shared) (hr : Uninterrupted (step k c) a b)
      (hp : a.2.store.slots.Proper)
      (hw : a.2.store.weightedSize = a.2.store.residentWeight + a.1.owes) :
      b.2.store.slots.Proper ∧ b.2.store.weightedSize = b.2.store.residentWeight + b.1.owes ∧
        b.2.store.settings = a.2.store.settings := by
    induction hr with
    | refl => exact ⟨hp, hw, rfl⟩
    | tail _ hs ih =>
      obtain ⟨hp', hw', hset⟩ := ih
      rcases step_proceeds hp' hs with hproceeds | ⟨-, howed, howes, hadmits⟩
      · exact ⟨hproceeds.proper, hproceeds.weight 0 hw', hproceeds.settings.trans hset⟩
      · rw [howed] at hw'
        rw [howes]
        exact ⟨hadmits.proper, hadmits.weight 0 hw', hadmits.settings.trans hset⟩
  refine hrun (x, s) (x', s') hr h.proper ?_
  rw [hx, Store.residentWeight_eq, h.weight]
  rfl

namespace Stage
variable {k : ChunkId} {c : Conduct} {s : Shared}

theorem uninterrupted_request (k : ChunkId) (c : Conduct) (s : Shared) :
    Uninterrupted (step k c) (seek, s)
      ((s.engine.request k).1.stage, s.withEngine (s.engine.request k).2) := by
  rcases Store.find?_cases s.store k with ⟨r, -, he⟩ | ⟨t, -, he⟩ | ⟨hn, he⟩
  · have hcall : s.engine.request k =
        (.hit r.chunk, s.engine.onStore fun _ ↦ (s.store.touch k r).record .hit) := by
      simp only [Engine.request, he]
      rfl
    rw [hcall]
    exact .single (by simp only [step, he]; rfl)
  · have hcall : s.engine.request k =
        (.wait t, s.engine.onStore fun _ ↦ s.store.record .hit) := by
      simp only [Engine.request, he]
      rfl
    rw [hcall]
    exact .single (by simp only [step, he]; rfl)
  · have hseek : step k c s seek = some (claim, s) := by
      simp only [step, he]
      rfl
    rcases Store.claim_cases s.store k with ⟨r, hr, -⟩ | ⟨t, ht, -⟩ | ⟨-, hclaim⟩
    · rw [hn] at hr
      cases hr
    · rw [hn] at ht
      cases ht
    · have hcall : s.engine.request k = (.load s.store.results.size,
          s.engine.onStore fun _ ↦ ((s.store.claim k).2.record .miss)) := by
        simp only [Engine.request, he, hclaim]
        rfl
      rw [hcall]
      refine .head hseek (.single ?_)
      simp only [step, hclaim]
      rfl

theorem uninterrupted_evict (chunk : ChunkRef) {p q : Pass} {s s' : Shared}
    (h : Uninterrupted Pass.step (p, s) (q, s')) :
    Uninterrupted (step k c) (evict chunk p, s) (evict chunk q, s') := by
  refine h.lift (fun a : Pass × Shared ↦ (evict chunk a.1, a.2)) fun a b hab ↦ ?_
  obtain ⟨p, s⟩ := a
  have hmap : (p.step s).map (fun a ↦ (evict chunk a.1, a.2)) = some (evict chunk b.1, b.2) := by
    simp only at hab
    rw [hab]
    rfl
  cases p with
  | left => cases hab
  | _ => exact hmap

theorem uninterrupted_fail (t : Ticket) {f : Failure} (hf : f ≠ .stuck) (s : Shared) :
    ∃ e, s.engine.finish k t (.error f) = (.error f, e) ∧
      Uninterrupted (step k c) (clear t f, s) (answered (.error f), s.withEngine e) := by
  cases f with
  | error | panic => exact ⟨_, rfl, .head rfl (.single rfl)⟩
  | stuck => exact absurd rfl hf

theorem uninterrupted_land {t : Ticket} {b : Block} {s₀ : Shared} {x₀ : Stage}
    (h₀ : s₀.store.Coherent) (hx₀ : x₀.owes = 0) (hb : s₀.store.batchSize ≠ 0)
    (hfree : s.evicting = false)
    (hr : Uninterrupted (step k c) (x₀, s₀)
      (settle t (s.engine.arrive k b).1 b.capacity, s.withEngine (s.engine.arrive k b).2)) :
    ∃ s', Uninterrupted (step k c)
        (settle t (s.engine.arrive k b).1 b.capacity, s.withEngine (s.engine.arrive k b).2)
        (answered (s.engine.finish k t (.ok b)).1, s') ∧
      s'.engine = (s.engine.finish k t (.ok b)).2 ∧ s.SameCallers s' ∧ s'.evicting = false := by
  let chunk := (s.engine.arrive k b).1
  let s₁ := s.withEngine (s.engine.arrive k b).2
  let settled := s₁.store.settle k t chunk b.capacity
  let s₂ := s₁.onStore fun _ ↦ settled.2.publish t (.ok chunk)
  have hsettle : step k c s₁ (settle t chunk b.capacity) =
      some (publish t chunk settled.1, s₁.onStore fun _ ↦ settled.2) := rfl
  have hpublish : step k c (s₁.onStore fun _ ↦ settled.2) (publish t chunk settled.1) =
      some (if settled.1 then evict chunk .compare else replace chunk, s₂) := rfl
  have hfinish : s.engine.finish k t (.ok b) =
      (.ok chunk, if settled.1 then s₂.engine.evictIfNeeded else s₂.engine.retire chunk .replaced) :=
    rfl
  rw [hfinish]
  cases hs : settled.1
  · rw [hs] at hsettle hpublish
    refine ⟨s₂.retire chunk .replaced, .head hsettle (.head hpublish (.single rfl)), rfl, ⟨rfl, rfl⟩,
      hfree⟩
  · rw [hs] at hsettle hpublish
    have hcompare : Uninterrupted (step k c) (settle t chunk b.capacity, s₁)
        (evict chunk .compare, s₂) := .head hsettle (.single hpublish)
    obtain ⟨hproper, hweight, hset⟩ := coherent_of_uninterrupted h₀ hx₀ (hr.trans hcompare)
    have hcoherent : s₂.store.Coherent := ⟨hproper, by rw [hweight, Store.residentWeight_eq]; rfl⟩
    have hbatch : s₂.store.batchSize ≠ 0 := by rwa [Store.batchSize, hset]
    obtain ⟨s₃, hpass, heng, hsame, hev⟩ := Pass.uninterrupted hcoherent hbatch hfree
    have hend : step k c s₃ (evict chunk .left) = some (answered (.ok chunk), s₃) := rfl
    exact ⟨s₃, hcompare.trans ((uninterrupted_evict chunk hpass).trans (.single hend)), heng,
      ⟨hsame.handles, hsame.readers⟩, hev⟩

theorem uninterrupted_load (h : s.store.Coherent) (hb : s.store.batchSize ≠ 0)
    (hfree : s.evicting = false) (t : Ticket) {loaded : Except Failure Block} {e₁ : Engine}
    (hl : c.load k.position s.store.settings.roundUp (s.engine, ()) = (loaded, e₁, ()))
    (hstuck : (e₁.finish k t loaded).1 ≠ .error .stuck) :
    ∃ s', Uninterrupted (step k c) (borrow t, s) (answered (e₁.finish k t loaded).1, s') ∧
      s'.engine = (e₁.finish k t loaded).2 ∧ s.SameCallers s' ∧ s'.evicting = false := by
  rw [Conduct.load_eq] at hl
  obtain ⟨m, hm⟩ := c.acquire_eq k.position s.store.settings.roundUp s
  have hfail (s₁ : Shared) (f : Failure) (hsame : s.SameCallers s₁) (hev : s₁.evicting = false)
      (hr : Uninterrupted (step k c) (borrow t, s) (clear t f, s₁))
      (he : (.error f, s₁.engine, ()) = (loaded, e₁, ())) :
      ∃ s', Uninterrupted (step k c) (borrow t, s) (answered (e₁.finish k t loaded).1, s') ∧
        s'.engine = (e₁.finish k t loaded).2 ∧ s.SameCallers s' ∧ s'.evicting = false := by
    cases he
    have hf : f ≠ .stuck := by
      rintro rfl
      exact hstuck rfl
    obtain ⟨e, hfinish, hrun⟩ := uninterrupted_fail (k := k) (c := c) t hf s₁
    rw [hfinish]
    exact ⟨_, hr.trans hrun, rfl, ⟨hsame.handles, hsame.readers⟩, hev⟩
  rcases ha : c.acquire k.position s.store.settings.roundUp s with ⟨f | b, s₁⟩ <;>
    rw [ha] at hl hm <;> simp only at hl hm
  all_goals
    have hsame : s.SameCallers s₁ := by
      rw [hm]
      exact ⟨rfl, rfl⟩
    have hev : s₁.evicting = false := by
      rw [hm]
      exact hfree
  · have hborrow : step k c s (borrow t) = some (clear t f, s₁) := by simp only [step, ha]
    exact hfail s₁ f hsame hev (.single hborrow) hl
  · have hborrow : step k c s (borrow t) = some (read t b, s₁) := by simp only [step, ha]
    rcases c.read_eq k.position b s₁ with ⟨b', -, he⟩ | ⟨f, b', -, he⟩ <;>
      rw [he] at hl <;> simp only at hl
    · cases hl
      have hread : step k c s₁ (read t b) = some (settle t (s₁.engine.arrive k b').1 b'.capacity,
          s₁.withEngine (s₁.engine.arrive k b').2) := by simp only [step, he]
      have hrun : Uninterrupted (step k c) (borrow t, s)
          (settle t (s₁.engine.arrive k b').1 b'.capacity,
            s₁.withEngine (s₁.engine.arrive k b').2) := .head hborrow (.single hread)
      obtain ⟨s', hland, heng, hsame', hev'⟩ := uninterrupted_land h rfl hb hev hrun
      exact ⟨s', hrun.trans hland, heng,
        ⟨hsame'.handles.trans hsame.handles, hsame'.readers.trans hsame.readers⟩, hev'⟩
    · have hf : f ≠ .stuck := by
        rintro rfl
        cases hl
        exact hstuck rfl
      let s₂ : Shared := { s₁.onMemory (·.giveBack b') with returned := none :: s₁.returned }
      have hread : step k c s₁ (read t b) = some (clear t f, s₂) := by
        cases f with
        | error | panic =>
          simp only [step, he]
          rfl
        | stuck => exact absurd rfl hf
      exact hfail s₂ f ⟨hsame.handles, hsame.readers⟩ hev (.head hborrow (.single hread)) hl

/-- Asking for a chunk, with a load where it is needed. Only a call that waits for the load of
another does not end. -/
theorem uninterrupted (h : s.store.Coherent) (hb : s.store.batchSize ≠ 0)
    (hfree : s.evicting = false) {answer : Except Failure ChunkRef} {e : Engine}
    (hr : Engine.getOrLoadWith k (c.load k.position s.store.settings.roundUp) (s.engine, ()) =
      (answer, e, ())) (hstuck : answer ≠ .error .stuck) :
    ∃ s', Uninterrupted (step k c) (seek, s) (answered answer, s') ∧ s'.engine = e ∧
      s.SameCallers s' ∧ s'.evicting = false := by
  have hseek := uninterrupted_request k c s
  obtain ⟨hproper, hweight, hset⟩ := coherent_of_uninterrupted h rfl hseek
  rw [Engine.getOrLoadWith] at hr
  rcases hq : s.engine.request k with ⟨chunk | t | t, e₀⟩ <;> rw [hq] at hr hseek hset hproper hweight <;>
    simp only at hr
  · cases hr
    exact ⟨_, hseek, rfl, ⟨rfl, rfl⟩, hfree⟩
  · cases hr
    rcases ht : e.store.result? t with _ | result
    · simp only [Engine.receive, ht] at hstuck
      exact absurd rfl hstuck
    · have hawait : step k c (s.withEngine e) (await t) =
          some (answered (e.receive t), s.withEngine e) := by
        have ht' : (s.withEngine e).store.result? t = some result := ht
        simp only [step, ht']
        rfl
      exact ⟨_, hseek.trans (.single hawait), rfl, ⟨rfl, rfl⟩, hfree⟩
  · have hcoherent : (s.withEngine e₀).store.Coherent :=
      ⟨hproper, by rw [hweight, Store.residentWeight_eq]; rfl⟩
    have hbatch : (s.withEngine e₀).store.batchSize ≠ 0 := by rwa [Store.batchSize, hset]
    rcases hl : c.load k.position s.store.settings.roundUp (e₀, ()) with ⟨loaded, e₁, ⟨⟩⟩
    rw [hl] at hr
    cases hr
    rw [← hset] at hl
    obtain ⟨s', hload, heng, hsame, hev⟩ :=
      uninterrupted_load (s := s.withEngine e₀) hcoherent hbatch hfree t hl hstuck
    exact ⟨s', hseek.trans hload, heng, ⟨hsame.handles, hsame.readers⟩, hev⟩

end Stage

theorem Access.attempt_succ {σ : Type} (k : ChunkId) (load : Action (Engine × σ) Block)
    (attempts : UInt32) (left : Nat) (st : Engine × σ) :
    attempt k load attempts (left + 1) st =
      match Engine.getOrLoadWith k load st with
      | (.error f, st) => (.error f, st)
      | (.ok chunk, st) =>
        match Engine.reference chunk st with
        | (.error f, st) => (.error f, st)
        | (.ok true, st) => (.ok chunk, st)
        | (.ok false, st) => attempt k load attempts left st := by
  rw [attempt, Action.bind_eq]
  rcases Engine.getOrLoadWith k load st with ⟨f | chunk, st⟩
  · rfl
  · simp only [Action.bind_eq]
    rcases Engine.reference chunk st with ⟨f | got, st⟩
    · rfl
    · cases got <;> rfl

namespace Call

def answer? : Call → Option (Except Failure ChunkRef)
  | get _ _ _ (.holding chunk) => some (.ok chunk)
  | get _ _ _ (.answered (.error f)) => some (.error f)
  | direct _ _ _ (.ended answer) => some answer
  | _ => none

/-- What is left by a call for a handle that came to that answer. -/
structure Leaves (s : Shared) (asked : ChunkId) (answer : Except Failure ChunkRef) (e : Engine)
    (x : Call) (s' : Shared) : Prop where
  answered : x.answer? = some answer
  engine : s'.engine = e
  handles : s'.handles = s.handles ++
    match answer with
    | .ok chunk => [⟨chunk, some asked⟩]
    | .error _ => []
  readers : s'.readers = s.readers
  evicting : s'.evicting = false

variable {k asked : ChunkId} {c : Conduct} {s : Shared} {reader : Nat} {attempts : UInt32}

theorem uninterrupted_get (reader : Nat) (goal : Goal) {x y : Stage} {s s' : Shared}
    (h : Uninterrupted (Stage.step k c) (x, s) (y, s')) :
    Uninterrupted (step c) (get k reader goal x, s) (get k reader goal y, s') := by
  refine h.lift (fun a : Stage × Shared ↦ (get k reader goal a.1, a.2)) fun a b hab ↦ ?_
  obtain ⟨x, s⟩ := a
  have hmap : (x.step k c s).map (fun a ↦ (get k reader goal a.1, a.2)) =
      some (get k reader goal b.1, b.2) := by
    simp only at hab
    rw [hab]
    rfl
  cases goal with
  | chunk => exact hmap
  | handle =>
    rcases x with _ | _ | _ | _ | _ | _ | _ | _ | _ | _ | _ | (f | chunk) | _
    case answered.ok => cases hab
    all_goals exact hmap

theorem takeHandle_of_false {left : Nat} {chunk : ChunkRef}
    (h : s.memory.reference chunk = (.ok false, s.memory)) :
    step c s (get k reader (.handle asked attempts left) (.answered (.ok chunk))) =
      some (match left with
        | 0 => (get k reader (.handle asked attempts 0)
            (.answered (.error (.error (.cacheExhausted k.text attempts)))), s)
        | left + 1 => (get k reader (.handle asked attempts left) .seek, s)) := by
  cases left <;> simp only [step, takeHandle, h]

/-- One attempt ends the call, or it leaves a chunk that has no reference any more. -/
theorem uninterrupted_attempt (asked : ChunkId) (reader : Nat) {left : Nat}
    (h : s.store.Coherent) (hb : s.store.batchSize ≠ 0) (hfree : s.evicting = false)
    {answer : Except Failure ChunkRef} {e : Engine}
    (hr : Access.attempt k (c.load k.position s.store.settings.roundUp) attempts (left + 1)
      (s.engine, ()) = (answer, e, ())) (hstuck : answer ≠ .error .stuck) :
    ∃ x s', Uninterrupted (step c) (get k reader (.handle asked attempts left) .seek, s) (x, s') ∧
      (Leaves s asked answer e x s' ∨
        ∃ chunk, x = get k reader (.handle asked attempts left) (.answered (.ok chunk)) ∧
          s'.memory.reference chunk = (.ok false, s'.memory) ∧
          Access.attempt k (c.load k.position s.store.settings.roundUp) attempts left
            (s'.engine, ()) = (answer, e, ()) ∧
          s.SameCallers s' ∧ s'.evicting = false ∧ s'.store.Coherent ∧
          s'.store.settings = s.store.settings) := by
  rw [Access.attempt_succ] at hr
  rcases hg : Engine.getOrLoadWith k (c.load k.position s.store.settings.roundUp) (s.engine, ())
    with ⟨f | chunk, e₁, ⟨⟩⟩ <;> rw [hg] at hr <;> simp only at hr
  · cases hr
    obtain ⟨s', hrun, heng, hsame, hev⟩ := Stage.uninterrupted h hb hfree hg hstuck
    refine ⟨_, s', uninterrupted_get reader _ hrun, .inl ⟨rfl, heng, ?_, hsame.readers, hev⟩⟩
    simp [hsame.handles]
  · obtain ⟨s', hrun, rfl, hsame, hev⟩ := Stage.uninterrupted h hb hfree hg (by simp)
    obtain ⟨hproper, hweight, hset⟩ := Stage.coherent_of_uninterrupted h rfl hrun
    have hcall := uninterrupted_get reader (.handle asked attempts left) hrun
    have hreference : Engine.reference (σ := Unit) chunk (s'.engine, ()) =
        ((s'.memory.reference chunk).1,
          s'.engine.onMemory fun _ ↦ (s'.memory.reference chunk).2, ()) := rfl
    rw [hreference] at hr
    rcases hm : s'.memory.reference chunk with ⟨f | got, m⟩ <;> rw [hm] at hr <;> simp only at hr
    · obtain rfl := Memory.memory_of_reference hm (by simp)
      have hstep : step c s' (get k reader (.handle asked attempts left) (.answered (.ok chunk))) =
          some (get k reader (.handle asked attempts left) (.answered (.error f)), s') := by
        simp only [step, takeHandle, hm]
      cases hr
      refine ⟨_, s', hcall.tail hstep, .inl ⟨rfl, rfl, ?_, hsame.readers, hev⟩⟩
      simp [hsame.handles]
    · cases got
      · obtain rfl := Memory.memory_of_reference hm (by simp)
        exact ⟨_, s', hcall, .inr ⟨chunk, rfl, hm, hr, hsame, hev,
          ⟨hproper, by rw [hweight, Store.residentWeight_eq]; rfl⟩, hset⟩⟩
      · have hstep : step c s' (get k reader (.handle asked attempts left)
            (.answered (.ok chunk))) =
            some (get k reader (.handle asked attempts left) (.holding chunk),
              (s'.onMemory fun _ ↦ m).addHandle ⟨chunk, some asked⟩) := by
          simp only [step, takeHandle, hm]
        cases hr
        refine ⟨_, _, hcall.tail hstep, .inl ⟨rfl, rfl, ?_, hsame.readers, hev⟩⟩
        rw [← hsame.handles]
        rfl

theorem uninterrupted_attempts {left : Nat} (h : s.store.Coherent) (hb : s.store.batchSize ≠ 0)
    (hfree : s.evicting = false) {answer : Except Failure ChunkRef} {e : Engine}
    (hr : Access.attempt k (c.load k.position s.store.settings.roundUp) attempts (left + 1)
      (s.engine, ()) = (answer, e, ())) (hstuck : answer ≠ .error .stuck) :
    ∃ x s', Uninterrupted (step c) (get k reader (.handle asked attempts left) .seek, s) (x, s') ∧
      Leaves s asked answer e x s' := by
  -- A chunk without a reference sends the call back to its start, with one attempt less.
  induction left generalizing s with
  | zero =>
    obtain ⟨x, s', hrun, hend | ⟨chunk, rfl, hfalse, hlast, hsame, hev, -, -⟩⟩ :=
      uninterrupted_attempt asked reader h hb hfree hr hstuck
    · exact ⟨x, s', hrun, hend⟩
    · cases hlast
      refine ⟨_, s', hrun.tail (takeHandle_of_false hfalse), rfl, rfl, ?_, hsame.readers, hev⟩
      simp [hsame.handles]
  | succ left ih =>
    obtain ⟨x, s', hrun, hend | ⟨chunk, rfl, hfalse, hlast, hsame, hev, hcoherent, hset⟩⟩ :=
      uninterrupted_attempt asked reader h hb hfree hr hstuck
    · exact ⟨x, s', hrun, hend⟩
    · have hbatch : s'.store.batchSize ≠ 0 := by rwa [Store.batchSize, hset]
      rw [← hset] at hlast
      obtain ⟨x, s'', hrest, hleaves⟩ := ih hcoherent hbatch hev hlast
      refine ⟨x, s'', (hrun.tail (takeHandle_of_false hfalse)).trans hrest, hleaves.answered,
        hleaves.engine, ?_, hleaves.readers.trans hsame.readers, hleaves.evicting⟩
      rw [hleaves.handles, hsame.handles]

theorem uninterrupted_direct (hfree : s.evicting = false) {answer : Except Failure ChunkRef}
    {e : Engine}
    (hr : (let (loaded, e, u) := c.load k.position false (s.engine, ())
      let (result, e) := e.adoptLoaded k.position loaded
      (result, e, u)) = (answer, e, ())) (hstuck : answer ≠ .error .stuck) :
    ∃ x s', Uninterrupted (step c) (direct asked k reader .borrow, s) (x, s') ∧
      Leaves s asked answer e x s' := by
  rw [Conduct.load_eq] at hr
  obtain ⟨m, hm⟩ := c.acquire_eq k.position false s
  rcases ha : c.acquire k.position false s with ⟨f | b, s₁⟩ <;> rw [ha] at hr hm <;>
    simp only at hr hm <;> subst hm
  · have hborrow : step c s (direct asked k reader .borrow) =
        some (direct asked k reader (.ended (.error f)), s.onMemory fun _ ↦ m) := by
      simp only [step, Direct.step, ha, Option.map_some]
    cases hr
    exact ⟨_, _, .single hborrow, rfl, rfl, (List.append_nil _).symm, rfl, hfree⟩
  · have hborrow : step c s (direct asked k reader .borrow) =
        some (direct asked k reader (.read b), s.onMemory fun _ ↦ m) := by
      simp only [step, Direct.step, ha, Option.map_some]
    rcases c.read_eq k.position b (s.onMemory fun _ ↦ m) with ⟨b', -, he⟩ | ⟨f, b', -, he⟩ <;>
      rw [he] at hr <;> simp only at hr
    · have hread : step c (s.onMemory fun _ ↦ m) (direct asked k reader (.read b)) =
          some (direct asked k reader (.ended (.ok (m.adopt b' k.position).1)),
            ((s.onMemory fun _ ↦ m).onMemory fun _ ↦ (m.adopt b' k.position).2).addHandle
              ⟨(m.adopt b' k.position).1, some asked⟩) := by
        simp only [step, Direct.step, he, Option.map_some]
        rfl
      cases hr
      exact ⟨_, _, .head hborrow (.single hread), rfl, rfl, rfl, rfl, hfree⟩
    · have hf : f ≠ .stuck := by
        rintro rfl
        cases hr
        exact hstuck rfl
      let s₂ : Shared :=
        { (s.onMemory fun _ ↦ m).onMemory (·.giveBack b') with returned := none :: s.returned }
      have hread : step c (s.onMemory fun _ ↦ m) (direct asked k reader (.read b)) =
          some (direct asked k reader (.ended (.error f)), s₂) := by
        cases f with
        | error | panic =>
          simp only [step, Direct.step, he, Option.map_some]
          rfl
        | stuck => exact absurd rfl hf
      cases hr
      exact ⟨_, s₂, .head hborrow (.single hread), rfl, rfl, (List.append_nil _).symm, rfl, hfree⟩

/-- The call for a handle, through the table or past it, is `Access.rebuffer`. -/
theorem uninterrupted_rebuffer {a : Access} {position : UInt64} (hc : c.reader = a.reader)
    (h : s.store.Coherent) (hb : s.store.batchSize ≠ 0) (hfree : s.evicting = false)
    {answer : Except Failure ChunkRef} {e : Engine}
    (hr : a.rebuffer c.physicalRead position (s.engine, ()) = (answer, e, ()))
    (hstuck : answer ≠ .error .stuck) :
    ∃ x s', Uninterrupted (step c) (rebuffer a reader position, s) (x, s') ∧
      Leaves s (a.reader.chunkId position) answer e x s' := by
  unfold Access.rebuffer at hr
  unfold rebuffer
  rw [← hc] at hr
  cases hm : a.mode with
  | cached attempts =>
    rw [hm] at hr
    by_cases hzero : attempts = 0
    · subst hzero
      cases hr
      exact ⟨_, s, .refl, rfl, rfl, (List.append_nil _).symm, rfl, hfree⟩
    · have hpos : attempts.toNat = attempts.toNat - 1 + 1 := by
        have hne : attempts.toNat ≠ 0 := fun e ↦ hzero (UInt32.toNat_inj.1 e)
        omega
      have hattempt : Access.attempt (a.chunkId position)
          (c.load (a.chunkId position).position s.store.settings.roundUp) attempts attempts.toNat
          (s.engine, ()) = (answer, e, ()) := hr
      simp only [hzero, if_false]
      rw [hpos] at hattempt
      exact uninterrupted_attempts h hb hfree hattempt hstuck
  | direct =>
    rw [hm] at hr
    exact uninterrupted_direct (k := a.chunkId position) hfree hr hstuck

end Call
end ReadCache
