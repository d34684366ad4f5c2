import ReadCache.Cache
import ReadCache.Proofs.Invalidation
import ReadCache.Proofs.Recency

namespace ReadCache

namespace Counters

def requests (c : Counters) : Nat := c.hits + c.misses

def removals (c : Counters) : Nat := c.evictionsSize + c.evictionsExplicit + c.evictionsReplaced

end Counters

namespace Event

def answers : Event → Nat
  | hit | miss => 1
  | _ => 0

def begins : Event → Nat
  | miss => 1
  | _ => 0

def ends : Event → Nat
  | loaded _ | loadFailed _ => 1
  | _ => 0

def arrives : Event → Nat
  | loaded _ => 1
  | _ => 0

def leaves : Event → Nat
  | removed _ => 1
  | _ => 0

def explicit : Event → Nat
  | removed .explicit => 1
  | _ => 0

end Event

namespace Counters

theorem record_adds (c : Counters) (e : Event) :
    (c.record e).requests = c.requests + e.answers ∧ (c.record e).misses = c.misses + e.begins ∧
    (c.record e).loads = c.loads + e.ends ∧ (c.record e).loadSuccess = c.loadSuccess + e.arrives ∧
    (c.record e).removals = c.removals + e.leaves ∧
    (c.record e).evictionsExplicit = c.evictionsExplicit + e.explicit := by
  rcases e with _ | _ | _ | _ | (_ | _ | _) <;> refine ⟨?_, ?_, ?_, ?_, ?_, ?_⟩ <;>
    simp only [record, requests, loads, removals, Event.answers, Event.begins, Event.ends,
      Event.arrives, Event.leaves, Event.explicit] <;> omega

end Counters

def Stage.uncounted : Stage → Nat
  | claim => 1
  | _ => 0

def Stage.running : Stage → Nat
  | borrow _ | read .. | clear .. => 1
  | _ => 0

def Stage.panics : Stage → Bool
  | clear _ (.error _) => false
  | clear .. => true
  | _ => false

def Sweep.unretired : Sweep → Nat
  | retire rest _ => rest.length
  | _ => 0

def Sweep.promised : Sweep → Nat
  | retire _ n => n
  | _ => 0

namespace Call

def uncounted : Call → Nat
  | get _ _ _ stage => stage.uncounted
  | _ => 0

def running : Call → Nat
  | get _ _ _ stage => stage.running
  | _ => 0

def unretired : Call → Nat
  | sweep _ stage => stage.unretired
  | _ => 0

def promised : Call → Nat
  | sweep _ stage => stage.promised
  | _ => 0

def seeks : Call → Bool
  | get _ _ _ .seek => true
  | _ => false

def panics : Call → Bool
  | get _ _ _ stage => stage.panics
  | _ => false

def removed : Call → Nat
  | invalidate _ (.ended removed) => removed.toNat
  | sweep _ (.ended n) => n
  | _ => 0

end Call

namespace Store
variable {s s' : Store} {k : ChunkId}

theorem size_eq (s : Store) : s.size = s.entries.length := by simp [size, entries]

theorem size_of_entries (h : s'.entries = s.entries) : s'.size = s.size := by
  rw [size_eq, size_eq, h]

theorem size_of_perm (gone : List Entry) (h : s.entries.Perm (gone ++ s'.entries)) :
    s.size = gone.length + s'.size := by
  rw [size_eq, size_eq, h.length_eq, List.length_append]

theorem counters_touch (s : Store) (k : ChunkId) (r : Resident) :
    (s.touch k r).counters = s.counters := by
  unfold touch
  split <;> rfl

theorem counters_clearLoad (s : Store) (k : ChunkId) (t : Ticket) :
    (s.clearLoad k t).counters = s.counters := by
  unfold clearLoad
  split <;> rfl

end Store

/-- A step of a call keeps each account: what it counts on one side it counts on the other, or has
in hand in between. -/
structure Call.Tallies (s : Shared) (x x' : Call) (s' : Shared) : Prop where
  requests : s'.store.counters.requests + x'.uncounted =
    s.store.counters.requests + x.uncounted + x.seeks.toNat
  loads : s'.store.counters.misses + s.store.counters.loads + x.running =
    s.store.counters.misses + s'.store.counters.loads + x.panics.toNat + x'.running
  chunks : s'.store.counters.loadSuccess + s.store.size + s.store.counters.removals +
      x.held.length =
    s.store.counters.loadSuccess + s'.store.size + s'.store.counters.removals + x'.held.length
  explicit : s'.store.counters.evictionsExplicit + x'.unretired + x.promised =
    s.store.counters.evictionsExplicit + x.unretired + x'.removed + x'.promised

section
variable {s s' : Shared}

/-- What a pass does to the accounts, with the chunks that it has taken out. -/
structure Pass.Tallies (s : Shared) (p p' : Pass) (s' : Shared) : Prop where
  counters : s'.store.counters =
    { s.store.counters with evictionsSize := s'.store.counters.evictionsSize }
  chunks : s.store.size + s.store.counters.evictionsSize + p.held.length =
    s'.store.size + s'.store.counters.evictionsSize + p'.held.length

theorem Pass.step_tallies {p p' : Pass} (hp : s.store.slots.Proper)
    (hs : p.step s = some (p', s')) : Pass.Tallies s p p' s' := by
  have hkept : s'.store = s.store → p'.held = p.held → Pass.Tallies s p p' s' := by
    intro hstore hheld
    exact ⟨by rw [hstore], by rw [hstore, hheld]⟩
  cases steps hs with
  | @take k r b hr =>
    have hsize := Store.size_of_perm [r.entry k] (Store.entries_detach hp hr)
    refine ⟨rfl, ?_⟩
    show s.store.size + _ + 0 = (s.store.detach k).2.size + s.store.counters.evictionsSize + 1
    rw [List.length_singleton] at hsize
    omega
  | discount => exact ⟨rfl, rfl⟩
  | retire =>
    refine ⟨rfl, ?_⟩
    show s.store.size + s.store.counters.evictionsSize + 1 =
      s.store.size + (s.store.counters.evictionsSize + 1) + 0
    omega
  | _ => exact hkept rfl rfl

namespace Call.Tallies
variable {x x' : Call}

theorem keep (hcounters : s'.store.counters = s.store.counters)
    (huncounted : x'.uncounted = x.uncounted + x.seeks.toNat)
    (hrunning : x.running = x.panics.toNat + x'.running)
    (hchunks : s.store.size + x.held.length = s'.store.size + x'.held.length)
    (hsweep : x'.unretired + x.promised = x.unretired + x'.removed + x'.promised) :
    Tallies s x x' s' := by
  constructor <;> rw [hcounters] <;> omega

theorem note {e : Event} (hcounters : s'.store.counters = s.store.counters.record e)
    (huncounted : e.answers + x'.uncounted = x.uncounted + x.seeks.toNat)
    (hrunning : e.begins + x.running = e.ends + x.panics.toNat + x'.running)
    (hchunks : s.store.size + (e.arrives + x.held.length) =
      s'.store.size + (e.leaves + x'.held.length))
    (hsweep : e.explicit + x'.unretired + x.promised =
      x.unretired + x'.removed + x'.promised) : Tallies s x x' s' := by
  obtain ⟨hrequests, hmisses, hloads, hsuccess, hremovals, hexplicit⟩ :=
    s.store.counters.record_adds e
  constructor <;> rw [hcounters] <;> omega

theorem of_pass {p p' : Pass} (h : Pass.Tallies s p p' s')
    (huncounted : x'.uncounted = x.uncounted + x.seeks.toNat)
    (hrunning : x.running = x.panics.toNat + x'.running) (hheld : x.held = p.held)
    (hheld' : x'.held = p'.held)
    (hsweep : x'.unretired + x.promised = x.unretired + x'.removed + x'.promised) :
    Tallies s x x' s' := by
  obtain ⟨hcounters, hchunks⟩ := h
  rw [← hheld, ← hheld'] at hchunks
  constructor <;> rw [hcounters] <;>
    simp only [Counters.requests, Counters.loads, Counters.removals] <;> omega

end Call.Tallies

theorem Stage.step_tallies {k : ChunkId} {c : Conduct} {x x' : Stage} (reader : Nat) (goal : Goal)
    (hp : s.store.slots.Proper) (hs : x.step k c s = some (x', s')) :
    Call.Tallies s (.get k reader goal x) (.get k reader goal x') s' := by
  cases steps hs with
  | @hit r hr | @hitLate r hr =>
    have hsize := Store.size_of_entries (Store.entries_touch hp hr)
    have hcounters := congrArg (Counters.record · .hit) (Store.counters_touch s.store k r)
    exact .note (e := .hit) hcounters rfl rfl (congrArg (· + 0) hsize.symm) rfl
  | join | joinLate => exact .note (e := .hit) rfl rfl rfl rfl rfl
  | begin hn =>
    have hsize := Store.size_of_entries (Store.entries_claim hp k)
    rw [Store.claim_of_free hn] at hsize ⊢
    exact .note (e := .miss) rfl rfl rfl (congrArg (· + 0) hsize.symm) rfl
  | borrow | refuse =>
    have hstore := c.store_acquire k.position s.store.settings.roundUp s
    exact .keep (by rw [hstore]) rfl rfl (by rw [hstore]; rfl) rfl
  | arrive => exact .note (e := .loaded 0) rfl rfl rfl rfl rfl
  | @fail t b b' f _ hstuck => cases f <;> exact .keep rfl rfl rfl rfl rfl
  | @settle t chunk weight ho =>
    have hentries := Store.entries_settle hp (c := chunk) (w := weight) ho
    have hsize := hentries.length_eq
    rw [← Store.size_eq, List.length_cons, ← Store.size_eq] at hsize
    refine .keep ?_ rfl rfl ?_ rfl
    · show (s.store.settle k t chunk weight).2.counters = s.store.counters
      simp only [Store.settle, ho, if_true]
    · show s.store.size + 1 = (s.store.settle k t chunk weight).2.size + 0
      omega
  | replace => exact .note (e := .removed .replaced) rfl rfl rfl rfl rfl
  | pass hq => exact .of_pass (Pass.step_tallies hp hq) rfl rfl rfl rfl rfl
  | @clear t f =>
    have hsize := Store.size_of_entries (f.entries_clearLoad (k := k) hp t)
    have hcounters := Store.counters_clearLoad (f.counted s.store) k t
    cases f with
    | error e =>
      exact .note (e := .loadFailed 0) hcounters rfl rfl (congrArg (· + 0) hsize.symm) rfl
    | panic | stuck => exact .keep hcounters rfl rfl (congrArg (· + 0) hsize.symm) rfl
  | _ => exact .keep rfl rfl rfl rfl rfl

theorem Direct.step_tallies {asked k : ChunkId} {c : Conduct} {x x' : Direct} (reader : Nat)
    (hs : x.step asked k c s = some (x', s')) :
    Call.Tallies s (.direct asked k reader x) (.direct asked k reader x') s' := by
  have hstore : s'.store = s.store := by
    cases steps hs with
    | borrow | refuse => exact c.store_acquire _ _ s
    | arrive | fail => rfl
  exact .keep (by rw [hstore]) rfl rfl (by rw [hstore]; rfl) rfl

theorem Removal.step_tallies {k : ChunkId} {x x' : Removal} (hp : s.store.slots.Proper)
    (hs : x.step k s = some (x', s')) : Call.Tallies s (.invalidate k x) (.invalidate k x') s' := by
  cases steps hs with
  | @take r hr =>
    have hsize := Store.size_of_perm [r.entry k] (Store.entries_detach hp hr)
    exact .keep rfl rfl rfl (hsize.trans (Nat.add_comm _ _)) rfl
  | clear hn =>
    have hsize := Store.size_of_entries (Store.entries_detach_of_not_resident hp hn)
    exact .keep rfl rfl rfl hsize.symm rfl
  | discount => exact .keep rfl rfl rfl rfl rfl
  | retire => exact .note (e := .removed .explicit) rfl rfl rfl rfl rfl

theorem Sweep.step_tallies {matches? : ChunkId → Bool} {x x' : Sweep}
    (hs : x.step matches? s = some (x', s')) :
    Call.Tallies s (.sweep matches? x) (.sweep matches? x') s' := by
  cases steps hs with
  | @clear shard out hi =>
    have hsize := Store.size_of_perm _ (Store.entries_detachMatching s.store hi matches?)
    rw [List.length_map] at hsize
    refine .keep rfl rfl rfl ?_ rfl
    have hout : (s.store.detachMatching shard matches?).1.length =
        (s.store.matching shard matches?).length := List.length_map _
    simp only [Call.held, held, List.length_map, List.length_append, hout]
    show s.store.size + _ = (s.store.detachMatching shard matches?).2.size + _
    omega
  | through => exact .keep rfl rfl rfl rfl (Nat.add_comm _ _)
  | discount =>
    refine .keep rfl rfl rfl ?_ rfl
    simp only [Call.held, held, List.length_map, List.length_append, List.length_cons,
      List.length_nil]
    show s.store.size + _ = s.store.size + _
    omega
  | @retire r rest n =>
    refine .note (e := .removed .explicit) rfl rfl rfl ?_ ?_
    · simp only [Call.held, held, List.length_map, List.length_cons, Event.arrives, Event.leaves]
      show s.store.size + _ = s.store.size + _
      omega
    · show 1 + rest.length + n = rest.length + 1 + 0 + n
      omega
  | next | leave => exact .keep rfl rfl rfl rfl rfl

theorem Call.step_tallies {c : Conduct} {x x' : Call} (hp : s.store.slots.Proper)
    (hs : x.step c s = some (x', s')) : Tallies s x x' s' := by
  cases steps hs with
  | stage hq => exact Stage.step_tallies _ _ hp hq
  | direct hq => exact Direct.step_tallies _ hq
  | invalidate hq => exact Removal.step_tallies hp hq
  | sweep hq => exact Sweep.step_tallies hq
  | evict hq => exact .of_pass (Pass.step_tallies hp hq) rfl rfl rfl rfl rfl
  | take | retry | exhaust | overflow => exact .keep rfl rfl rfl rfl rfl

end

def advanced {α : Type} (step : Shared → α → Option (α × Shared)) :
    (n : Nat) → α × Shared → Option (α × Shared)
  | 0, a => some a
  | n + 1, a => (step a.2 a.1).bind (advanced step n)

theorem uninterrupted_of_advanced {α : Type} {step : Shared → α → Option (α × Shared)} {n : Nat}
    {a b : α × Shared} (h : advanced step n a = some b) : Uninterrupted step a b := by
  induction n generalizing a with
  | zero =>
    cases h
    exact .refl
  | succ n ih =>
    obtain ⟨c, hc, hrest⟩ := Option.bind_eq_some_iff.1 h
    exact .head hc (ih hrest)

def Tick.seeks (x : Tick) : Bool := x.came?.any Call.seeks

def Tick.panics (x : Tick) : Bool := x.came?.any Call.panics

def Tick.resets (x : Tick) : Bool := x.move matches .resetCounters

def Tick.removed (x : Tick) : Nat := (x.went?.map Call.removed).getD 0

def asked (log : List Tick) : Nat := log.countP Tick.seeks

def panicked (log : List Tick) : Nat := log.countP Tick.panics

def invalidated (log : List Tick) : Nat := (log.map Tick.removed).sum

namespace Traffic
variable {t u v : Traffic} {log : List Tick}

def inFlight (t : Traffic) : Nat := t.calls.countP fun c ↦ c.runs?.isSome

def total (f : Call → Nat) (t : Traffic) : Nat := (t.calls.map f).sum

/-- The accounts of a run since the counters were last at zero. -/
structure Tallied (log : List Tick) (u : Traffic) : Prop where
  requests : u.shared.store.counters.requests + u.total Call.uncounted = asked log
  loads : u.shared.store.counters.misses =
    u.shared.store.counters.loads + panicked log + u.total Call.running
  chunks : u.shared.store.counters.loadSuccess =
    u.shared.store.size + u.shared.store.counters.removals + u.held.length
  explicit : u.shared.store.counters.evictionsExplicit + u.total Call.unretired =
    invalidated log + u.total Call.promised

/-- `v` is `u` after the cache was turned on or off: all is swept, with no other call between, and
then the counters are reset. -/
def Restarts (u v : Traffic) : Prop :=
  ∃ n s, Uninterrupted (Sweep.step fun _ ↦ true) (.clear 0 [], u.shared) (.ended n, s) ∧
    v = ⟨s.withEngine s.engine.resetCounters, u.calls ++ [.sweep (fun _ ↦ true) (.ended n)]⟩

/-- A sequential run in which the counters are only reset when the cache is turned on or off, which
is while no load is under way. The moves are those since then. -/
inductive Since (t : Traffic) : List Tick → Traffic → Prop where
  | start : Since t [] t
  | move {log : List Tick} {u v : Traffic} {m : Move} (h : Since t log u)
      (hs : u.step m = some v) (hturn : (⟨u, m, v⟩ : Tick).inTurn = true)
      (hm : (⟨u, m, v⟩ : Tick).resets = false) : Since t (log ++ [⟨u, m, v⟩]) v
  | restart {log : List Tick} {u v : Traffic} (h : Since t log u) (hbetween : u.Between)
      (hidle : u.inFlight = 0) (hr : u.Restarts v) : Since t [] v

theorem total_set {i : Nat} {c : Call} (f : Call → Nat) (hi : t.calls[i]? = some c) (c' : Call)
    (s : Shared) : total f ⟨s, t.calls.set i c'⟩ + f c = t.total f + f c' := by
  obtain ⟨others, hold, hnew⟩ := calls_split hi
  have hbefore := (hold.map f).sum_nat
  have hafter := ((hnew c').map f).sum_nat
  simp only [List.map_cons, List.sum_cons] at hbefore hafter
  simp only [total]
  omega

theorem length_held (t : Traffic) : t.held.length = t.total fun c ↦ c.held.length := by
  simp [held, total, List.length_flatMap]

theorem advance_tallied {i : Nat} {conduct : Conduct} (hp : t.shared.store.slots.Proper)
    (h : Tallied log t) (hs : t.step (.advance i conduct) = some u) :
    Tallied (log ++ [⟨t, .advance i conduct, u⟩]) u := by
  obtain ⟨c, c', s, hi, hstep, rfl⟩ := advance_cases hs
  obtain ⟨hrequests, hloads, hchunks, hexplicit⟩ := Call.step_tallies hp hstep
  have hcame : (⟨t, .advance i conduct, ⟨s, t.calls.set i c'⟩⟩ : Tick).came? = some c :=
    came?_advance hi
  have hwent : (⟨t, .advance i conduct, ⟨s, t.calls.set i c'⟩⟩ : Tick).went? = some c' :=
    went?_advance hi
  have hset (f : Call → Nat) := total_set f hi c' s
  constructor
  case requests =>
    have hold := h.requests
    have hcalls := hset Call.uncounted
    simp only [asked, countP_snoc, Tick.seeks, hcame, Option.any_some] at hold ⊢
    omega
  case loads =>
    have hold := h.loads
    have hcalls := hset Call.running
    simp only [panicked, countP_snoc, Tick.panics, hcame, Option.any_some] at hold ⊢
    omega
  case chunks =>
    have hold := h.chunks
    have hcalls := hset fun c ↦ c.held.length
    rw [length_held] at hold ⊢
    dsimp only at hold hcalls ⊢
    omega
  case explicit =>
    have hold := h.explicit
    have hunretired := hset Call.unretired
    have hpromised := hset Call.promised
    simp only [invalidated, List.map_append, List.sum_append, List.map_cons, List.map_nil,
      List.sum_cons, List.sum_nil, Tick.removed, hwent, Option.map_some, Option.getD_some] at hold ⊢
    omega

theorem start_tallies (c : Start) : c.call.uncounted = 0 ∧ c.call.running = 0 ∧
    c.call.held.length = 0 ∧ c.call.unretired = 0 ∧ c.call.promised = 0 := by
  rcases c.call_cases with ⟨k, reader, goal, x, he, rfl | ⟨f, rfl⟩⟩ | ⟨asked, k, reader, he⟩ |
    ⟨k, he⟩ | ⟨matches?, he⟩ | he <;> rw [he] <;> exact ⟨rfl, rfl, rfl, rfl, rfl⟩

theorem total_append (f : Call → Nat) (c : Call) (s : Shared) :
    total f ⟨s, t.calls ++ [c]⟩ = t.total f + f c := by
  simp [total]

theorem other_tallied {m : Move} (hm : ∀ i conduct, m ≠ .advance i conduct)
    (hreset : (⟨t, m, u⟩ : Tick).resets = false) (h : Tallied log t) (hs : t.step m = some u) :
    Tallied (log ++ [⟨t, m, u⟩]) u := by
  have hnone : asked (log ++ [⟨t, m, u⟩]) = asked log ∧
      panicked (log ++ [⟨t, m, u⟩]) = panicked log ∧
      invalidated (log ++ [⟨t, m, u⟩]) = invalidated log := by
    simp [asked, panicked, invalidated, Tick.seeks, Tick.panics, Tick.removed, Tick.went?,
      came?_other hm, mover?_other hm]
  obtain ⟨hasked, hpanicked, hinvalidated⟩ := hnone
  have hcounters : u.shared.store.counters = t.shared.store.counters := by
    cases steps hs with
    | @advance i conduct => exact absurd rfl (hm i conduct)
    | resetCounters => cases hreset
    | _ => rfl
  rcases step_cases hs with ⟨i, conduct, he⟩ | ⟨hcalls, hslots, -⟩
  · exact absurd he (hm i conduct)
  have hsize : u.shared.store.size = t.shared.store.size := by
    simp only [Store.size, Store.residents, hslots]
  have htotal (f : Call → Nat) (hf : ∀ c : Start, f c.call = 0) : u.total f = t.total f := by
    rcases hcalls with he | ⟨c, he⟩
    · rw [total, he, total]
    · simp [total, he, hf c]
  constructor
  · rw [hcounters, hasked, htotal _ fun c ↦ (start_tallies c).1]
    exact h.requests
  · rw [hcounters, hpanicked, htotal _ fun c ↦ (start_tallies c).2.1]
    exact h.loads
  · rw [hcounters, hsize, length_held, htotal _ fun c ↦ (start_tallies c).2.2.1, ← length_held]
    exact h.chunks
  · rw [hcounters, hinvalidated, htotal _ fun c ↦ (start_tallies c).2.2.2.1,
      htotal _ fun c ↦ (start_tallies c).2.2.2.2]
    exact h.explicit

theorem tallied_of_initial (h : t.Initial) : Tallied [] t := by
  obtain ⟨settings, hash, hstore⟩ := h.store
  have hsize : t.shared.store.size = 0 := by simp [Store.size, Store.residents_create? hstore]
  have hcounters : t.shared.store.counters = {} := by rw [Store.create?_eq hstore]
  have htotal (f : Call → Nat) : t.total f = 0 := by simp [total, h.calls]
  constructor <;> simp [hsize, hcounters, htotal, length_held, asked, panicked, invalidated,
    Counters.requests, Counters.loads, Counters.removals]

theorem tallies_of_waiting {c : Call} (h : c.waiting = true) : c.uncounted = 0 ∧
    c.running = (c.runs?.isSome).toNat ∧ c.held.length = 0 ∧ c.unretired = 0 ∧ c.promised = 0 := by
  cases c with
  | get k reader goal stage =>
    cases stage with
    | read | answered | holding => exact ⟨rfl, rfl, rfl, rfl, rfl⟩
    | _ => cases goal <;> cases h
  | direct => exact ⟨rfl, rfl, rfl, rfl, rfl⟩
  | invalidate k stage =>
    cases stage with
    | ended => exact ⟨rfl, rfl, rfl, rfl, rfl⟩
    | _ => cases h
  | sweep matches? stage =>
    cases stage with
    | ended => exact ⟨rfl, rfl, rfl, rfl, rfl⟩
    | _ => cases h
  | evict p =>
    cases p with
    | left => exact ⟨rfl, rfl, rfl, rfl, rfl⟩
    | _ => cases h

theorem total_of_between {f : Call → Nat} (h : t.Between) (hf : ∀ c, c.waiting = true → f c = 0) :
    t.total f = 0 := by
  refine List.sum_eq_zero_iff_forall_eq_nat.2 fun n hn ↦ ?_
  obtain ⟨c, hc, rfl⟩ := List.mem_map.1 hn
  exact hf c (h c hc)

theorem running_of_between (h : t.Between) : t.total Call.running = t.inFlight := by
  have hsame : t.calls.map Call.running = t.calls.map fun c ↦ (c.runs?.isSome).toNat :=
    List.map_congr_left fun c hc ↦ (tallies_of_waiting (h c hc)).2.1
  rw [total, hsame, inFlight]
  induction t.calls with
  | nil => rfl
  | cons c calls ih =>
    rw [List.map_cons, List.sum_cons, ih, List.countP_cons, Nat.add_comm]
    cases c.runs?.isSome <;> rfl

theorem Restarts.engine (h : u.Restarts v) : v.shared.engine = u.shared.engine.restart := by
  obtain ⟨n, s, hrun, rfl⟩ := h
  obtain ⟨s', hrun', heng, -, -⟩ := Sweep.uninterrupted (fun _ ↦ true) u.shared
  have hsame := congrArg Prod.snd (Uninterrupted.unique hrun hrun' rfl rfl)
  simp only at hsame
  subst hsame
  show s.engine.resetCounters = u.shared.engine.restart
  rw [heng]
  rfl

theorem Restarts.empty (hp : u.shared.store.slots.Proper) (h : u.Restarts v) :
    v.shared.store.slots.Proper ∧ v.shared.store.size = 0 ∧ v.shared.store.counters = {} := by
  have hstore : v.shared.store = { u.shared.store.purge (fun _ ↦ true) with counters := {} } := by
    have heng := congrArg Engine.store h.engine
    rw [Engine.restart, Engine.invalidateAll, Engine.invalidateMatching_eq] at heng
    exact heng
  rw [hstore]
  refine ⟨?_, ?_, rfl⟩
  · exact hp.keep fun _ ↦ false
  · simp [Store.size, Store.residents, Store.purge, ShardedMap.toList_keep]

theorem restart_tallied (hp : u.shared.store.slots.Proper) (hbetween : u.Between)
    (hidle : u.inFlight = 0) (h : u.Restarts v) : Tallied [] v := by
  obtain ⟨-, hsize, hcounters⟩ := h.empty hp
  have htotal {f : Call → Nat} (hu : u.total f = 0)
      (hf : ∀ n, f (.sweep (fun _ ↦ true) (.ended n)) = 0) : v.total f = 0 := by
    obtain ⟨n, s, -, rfl⟩ := h
    rw [total_append, hu, hf]
  have hrunning : v.total Call.running = 0 :=
    htotal ((running_of_between hbetween).trans hidle) fun _ ↦ rfl
  have hwait {f : Call → Nat} (hf : ∀ c, c.waiting = true → f c = 0) : v.total f = 0 :=
    htotal (total_of_between hbetween hf) fun _ ↦ hf _ rfl
  have huncounted := hwait fun c hc ↦ (tallies_of_waiting hc).1
  have hheld := hwait fun c hc ↦ (tallies_of_waiting hc).2.2.1
  have hunretired := hwait fun c hc ↦ (tallies_of_waiting hc).2.2.2.1
  have hpromised := hwait fun c hc ↦ (tallies_of_waiting hc).2.2.2.2
  constructor <;> simp [hsize, hcounters, length_held, huncounted, hrunning, hheld, hunretired,
    hpromised, asked, panicked, invalidated, Counters.requests, Counters.loads, Counters.removals]

theorem Since.tallied (ht : t.Initial) (h : t.Since log v) :
    v.shared.store.slots.Proper ∧ Tallied log v := by
  induction h with
  | start => exact ⟨ht.proper, tallied_of_initial ht⟩
  | @move log u v m _ hs _ hm ih =>
    obtain ⟨hp, htallied⟩ := ih
    refine ⟨((step_goes hp hs).grows hp).proper, ?_⟩
    cases m with
    | advance i conduct => exact advance_tallied hp htallied hs
    | _ => exact other_tallied (by simp) hm htallied hs
  -- A restart leaves nothing in the table and nothing in hand, so the accounts begin anew.
  | restart _ hbetween hidle hr ih =>
    exact ⟨(hr.empty ih.1).1, restart_tallied ih.1 hbetween hidle hr⟩

/-- In every state of a sequential run the statistics balance, with what the calls have in hand.
Between the operations, those in the middle of a physical read among them, that is nothing but the
loads under way: every request is a hit or a miss, every miss has been loaded, has failed, has
panicked or is under way, what was loaded is resident or was removed, and what was explicitly
removed is what the invalidations say that they removed. -/
theorem statistics_balance (ht : t.Initial) (h : t.Since log v) :
    Tallied log v ∧ (v.Between →
      let c := v.shared.store.counters
      c.hits + c.misses = asked log ∧
      c.misses = c.loadSuccess + c.loadFailure + panicked log + v.inFlight ∧
      v.shared.store.size + (c.evictionsSize + c.evictionsExplicit + c.evictionsReplaced) =
        c.loadSuccess ∧
      c.evictionsExplicit = invalidated log) := by
  obtain ⟨-, htallied⟩ := h.tallied ht
  refine ⟨htallied, fun hbetween ↦ ?_⟩
  obtain ⟨hrequests, hloads, hchunks, hexplicit⟩ := htallied
  rw [running_of_between hbetween] at hloads
  rw [total_of_between hbetween fun c hc ↦ (tallies_of_waiting hc).1] at hrequests
  rw [length_held, total_of_between hbetween fun c hc ↦ (tallies_of_waiting hc).2.2.1] at hchunks
  rw [total_of_between hbetween fun c hc ↦ (tallies_of_waiting hc).2.2.2.1,
    total_of_between hbetween fun c hc ↦ (tallies_of_waiting hc).2.2.2.2] at hexplicit
  simp only [Counters.requests, Counters.loads, Counters.removals] at hrequests hloads hchunks
  refine ⟨?_, ?_, ?_, ?_⟩
  · omega
  · omega
  · omega
  · omega

def Ordered (log : List Tick) : Prop := ∀ x ∈ log, x.inTurn = true ∧ x.resets = false

instance (log : List Tick) : Decidable (Ordered log) := by
  unfold Ordered
  infer_instance

instance (t : Traffic) : Decidable t.Between := by
  unfold Between
  infer_instance

theorem Since.append (h : t.Since log u) {log' : List Tick} (hrec : Records u log' v)
    (hlog : Ordered log') : t.Since (log ++ log') v := by
  induction hrec with
  | nil => rwa [List.append_nil]
  | snoc _ hs ih =>
    obtain ⟨hturn, hm⟩ := hlog _ (List.mem_append_right _ List.mem_cons_self)
    rw [← List.append_assoc]
    exact .move (ih fun x hx ↦ hlog x (List.mem_append_left _ hx)) hs hturn hm

/-- The sweep that turning the cache on or off begins with, over after `n` steps, and the reset. -/
def restart? (u : Traffic) (n : Nat) : Option Traffic :=
  match advanced (Sweep.step fun _ ↦ true) n (.clear 0 [], u.shared) with
  | some (.ended n, s) =>
    some ⟨s.withEngine s.engine.resetCounters, u.calls ++ [.sweep (fun _ ↦ true) (.ended n)]⟩
  | _ => none

theorem restarts_of_restart? {n : Nat} (h : u.restart? n = some v) : u.Restarts v := by
  unfold restart? at h
  split at h
  · rename_i n s he
    cases h
    exact ⟨n, s, uninterrupted_of_advanced he, rfl⟩
  · cases h

/-- The cache is turned off and on with a chunk in it. Then a file is read, and during that read
another is read and invalidated. -/
theorem statistics_balance_past_restart :
    ∃ (t v : Traffic) (log : List Tick), t.Initial ∧ t.Since log v ∧ v.Between ∧
      (asked log = 2 ∧ panicked log = 0 ∧ v.inFlight = 1 ∧ invalidated log = 1 ∧
        v.shared.store.counters.loadSuccess = 1) ∧
      v.shared.store.counters.misses = 2 ∧ v.shared.store.size = 0 ∧
      v.shared.store.counters.evictionsExplicit = 1 := by
  let past : List Move := loadSmall 0 "a" 6 8
  let moves : List Move := loadSmall 2 "a" 6 3 ++ loadSmall 3 "b" 5 8 ++
    alone 4 (.invalidate ((smallFile "b" 5).chunkId 0)) (.ofReader (smallFile "b" 5) 0) 3
  have hend : ((create? tight ChunkId.hash).bind (·.record past)).any fun r ↦
      decide (Ordered r.1 ∧ r.2.Between ∧ r.2.inFlight = 0) &&
      ((r.2.restart? 6).bind (·.record moves)).any fun r ↦
        decide (Ordered r.1 ∧ r.2.Between ∧ asked r.1 = 2 ∧ panicked r.1 = 0 ∧
          r.2.inFlight = 1 ∧ invalidated r.1 = 1 ∧ r.2.shared.store.counters.loadSuccess = 1 ∧
          r.2.shared.store.counters.loadFailure = 0) := by
    decide +kernel
  obtain ⟨⟨log, u⟩, hpast, hrest⟩ := (Option.any_eq_true _ _).1 hend
  obtain ⟨t, ht, hpast⟩ := Option.bind_eq_some_iff.1 hpast
  rw [Bool.and_eq_true] at hrest
  obtain ⟨hpause, hrest⟩ := hrest
  obtain ⟨hlog, hbetween, hidle⟩ := of_decide_eq_true hpause
  obtain ⟨⟨log', v⟩, hmoves, hrest⟩ := (Option.any_eq_true _ _).1 hrest
  obtain ⟨w, hw, hmoves⟩ := Option.bind_eq_some_iff.1 hmoves
  obtain ⟨hlog', hbetween', hasked, hpanicked, hflight, hinvalidated, hsuccess, hfailure⟩ :=
    of_decide_eq_true hrest
  dsimp only at hasked hpanicked hflight hinvalidated hsuccess hfailure
  have hbefore : t.Since log u := Since.start.append (records_of_record hpast) hlog
  have hafter : t.Since log' v :=
    (hbefore.restart hbetween hidle (restarts_of_restart? hw)).append
      (records_of_record hmoves) hlog'
  obtain ⟨-, hbalance⟩ := statistics_balance (initial_of_create? ht) hafter
  obtain ⟨-, hmisses, hsize, hexplicit⟩ := hbalance hbetween'
  refine ⟨t, v, log', initial_of_create? ht, hafter, hbetween',
    ⟨hasked, hpanicked, hflight, hinvalidated, hsuccess⟩, ?_, ?_, ?_⟩
  · omega
  · omega
  · omega

end Traffic
end ReadCache
