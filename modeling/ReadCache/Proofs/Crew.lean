import ReadCache.Proofs.Transparency
import ReadCache.Proofs.Transitions
import ReadCache.Proofs.Weights
import ReadCache.Proofs.WholeCalls
import ReadCache.Proofs.Routes

namespace ReadCache

def Shared.bytes (s : Shared) (h : Handle) : ByteArray :=
  (s.memory.view? h.chunk).getD ByteArray.empty

def Shared.offset (s : Shared) (h : Handle) : UInt64 :=
  ((s.memory.chunk? h.chunk).map Chunk.offset).getD 0

namespace Scan

/-- A read that a worker makes: in which file, and where in it. -/
structure Stop where
  file : Nat
  position : UInt64
  deriving DecidableEq, Repr

/-- Where a worker stands. -/
inductive Phase where
  | ready
  | waiting (stop : Stop) (call : Nat)
  | served (stop : Stop) (handle : Handle)
  /-- has compared the chunk and found no difference -/
  | agreed (stop : Stop) (handle : Handle)
  /-- has counted the chunk, but not yet its bytes -/
  | counted (stop : Stop) (handle : Handle)
  | leaving (stop : Stop) (handle : Handle)
  | refusing (stop : Stop) (handle : Handle) (failure : Failure)
  | failed (stop : Stop) (failure : Failure)

namespace Phase

def stop? : Phase → Option Stop
  | ready => none
  | waiting stop _ | served stop _ | agreed stop _ | counted stop _ | leaving stop _
  | refusing stop _ _ | failed stop _ => some stop

def handle? : Phase → Option Handle
  | served _ handle | agreed _ handle | counted _ handle | leaving _ handle
  | refusing _ handle _ => some handle
  | _ => none

def call? : Phase → Option Nat
  | waiting _ call => some call
  | _ => none

def counted? : Phase → Option Stop
  | counted stop _ | leaving stop _ => some stop
  | _ => none

def weighed? : Phase → Option Stop
  | leaving stop _ => some stop
  | _ => none

def receive (stop : Stop) (call : Nat) (c : Call) : Phase :=
  match c.gave?, c.answer? with
  | some handle, _ => served stop handle
  | none, some (.error f) => failed stop (ofFailure f)
  | none, _ => waiting stop call

end Phase

/-- A worker asks for a chunk, waits for the call that gets it, compares what it was given, counts
it and gives the handle up. -/
structure Worker where
  /-- What it has read and counted, in this order. -/
  made : List Stop := []
  rest : List Stop
  phase : Phase := .ready

namespace Worker

def requested (w : Worker) : List Stop := w.made ++ w.phase.stop?.toList

def route (w : Worker) : List Stop := w.requested ++ w.rest

def Succeeded (w : Worker) : Prop := w.phase = .ready ∧ w.rest = []

def chunks (w : Worker) : Nat := (w.made ++ w.phase.counted?.toList).length

def bytes (size : Stop → Nat) (w : Worker) : Nat :=
  ((w.made ++ w.phase.weighed?.toList).map size).sum

def step (w : Worker) (s : Session) (t : Tally) : Option (Worker × Session × Tally) :=
  match w.phase with
  | .ready =>
    match w.rest with
    | [] => none
    | stop :: rest => (s.step (.rebuffer stop.file stop.position)).map fun s' ↦
        ({ w with rest, phase := .waiting stop s.traffic.calls.length }, s', t)
  | .waiting stop call => (s.step (.advance call)).bind fun s' ↦
      s'.traffic.calls[call]?.map fun c ↦ ({ w with phase := .receive stop call c }, s', t)
  | .served stop handle => s.shared.readers[stop.file]?.map fun r ↦
      match verify r.source (s.shared.offset handle) (s.shared.bytes handle) with
      | .ok () => ({ w with phase := .agreed stop handle }, s, t)
      | .error failure => ({ w with phase := .refusing stop handle failure }, s, t)
  | .agreed stop handle =>
    some ({ w with phase := .counted stop handle }, s, { t with chunks := t.chunks + 1 })
  | .counted stop handle =>
    some ({ w with phase := .leaving stop handle }, s,
      { t with bytes := t.bytes + (s.shared.bytes handle).size })
  | .leaving stop handle => (s.step (.release (s.shared.handles.idxOf handle))).map fun s' ↦
      ({ w with made := w.made ++ [stop], phase := .ready }, s', t)
  | .refusing stop handle failure =>
    (s.step (.release (s.shared.handles.idxOf handle))).map fun s' ↦
      ({ w with phase := .failed stop failure }, s', t)
  | .failed .. => none

end Worker

/-- The workers of a scan, all at once: between any two steps of one worker the others, and the
calls they wait for, take theirs. -/
structure Crew where
  session : Session
  workers : List Worker
  tally : Tally := {}

namespace Crew

def step (c : Crew) (i : Nat) : Option Crew :=
  match c.workers[i]? with
  | none => none
  | some w => (w.step c.session c.tally).map fun (w, session, tally) ↦
      { session, workers := c.workers.set i w, tally }

/-- What the workers can come to, in any order of their steps. The files do not change, but a read
may at any time begin to fail or to give less. -/
inductive Reaches (files : Files) (c : Crew) : Crew → Prop where
  | refl : Reaches files c c
  | step {d e : Crew} (i : Nat) : Reaches files c d → d.step i = some e → Reaches files c e
  | turn {d : Crew} {s : Session} (reader : Nat) (source : ByteSource) : Reaches files c d →
      Session.Use.Honest files d.session (.turn reader source) →
      d.session.step (.turn reader source) = some s → Reaches files c { d with session := s }

end Crew

def Stop.asked? (accesses : List (Access × Nat)) (stop : Stop) : Option ChunkId :=
  accesses[stop.file]?.map fun p ↦ p.1.reader.chunkId stop.position

def Stop.size (files : Files) (accesses : List (Access × Nat)) (stop : Stop) : Nat :=
  match stop.asked? accesses with
  | some k => ((files k.path k.kind).slice ((files k.path k.kind).start k.position.toNat)).size
  | none => 0

/-- A step of one worker, and all that the others can tell of it. -/
structure Worker.Moves (files : Files) (accesses : List (Access × Nat)) (w : Worker) (s : Session)
    (t : Tally) (w' : Worker) (s' : Session) (t' : Tally) : Prop where
  faithful : ∃ keys, s'.Faithful files keys
  weighed : s'.traffic.Weighed
  granted : s'.accesses = s.accesses
  settings : s'.shared.store.settings = s.shared.store.settings
  route : w'.route = w.route
  asked : ∀ (i : Nat) (c : Call), s.traffic.calls[i]? = some c →
    ∃ c', s'.traffic.calls[i]? = some c' ∧ c'.asked? = c.asked?
  asks : ∀ stop i, w'.phase = .waiting stop i →
    ∃ c k, s'.traffic.calls[i]? = some c ∧ c.asked? = some k ∧ stop.asked? accesses = some k
  holds : ∀ stop handle, w'.phase.stop? = some stop → w'.phase.handle? = some handle →
    ∃ k, handle.asked = some k ∧ stop.asked? accesses = some k
  handles : ∀ others, s.shared.handles.Perm (w.phase.handle?.toList ++ others) →
    s'.shared.handles.Perm (w'.phase.handle?.toList ++ others)
  calls : ∀ (i : Nat) (c : Call), s'.traffic.calls[i]? = some c →
    c.ended = true ∨ w'.phase.call? = some i ∨
      (s.traffic.calls[i]? = some c ∧ w.phase.call? ≠ some i)
  chunks : t'.chunks + w.chunks = t.chunks + w'.chunks
  bytes : t'.bytes + w.bytes (Stop.size files accesses) =
    t.bytes + w'.bytes (Stop.size files accesses)

/-- The state of a crew over those files, whose workers began with those routes. -/
structure Crew.Sound (files : Files) (accesses : List (Access × Nat)) (plan : List (List Stop))
    (c : Crew) : Prop where
  faithful : ∃ keys, c.session.Faithful files keys
  weighed : c.session.traffic.Weighed
  granted : c.session.accesses = accesses
  routes : c.workers.map Worker.route = plan
  asks : ∀ w ∈ c.workers, ∀ stop i, w.phase = .waiting stop i →
    ∃ call k, c.session.traffic.calls[i]? = some call ∧ call.asked? = some k ∧
      stop.asked? accesses = some k
  holds : ∀ w ∈ c.workers, ∀ stop handle, w.phase.stop? = some stop →
    w.phase.handle? = some handle → ∃ k, handle.asked = some k ∧ stop.asked? accesses = some k
  handles : c.session.shared.handles.Perm (c.workers.flatMap (·.phase.handle?.toList))
  calls : ∀ (i : Nat) (call : Call), c.session.traffic.calls[i]? = some call →
    call.ended = true ∨ ∃ w ∈ c.workers, w.phase.call? = some i
  chunks : c.tally.chunks = (c.workers.map Worker.chunks).sum
  bytes : c.tally.bytes = (c.workers.map (Worker.bytes (Stop.size files accesses))).sum

variable {files : Files} {accesses : List (Access × Nat)} {plan : List (List Stop)}
variable {keys : List ChunkId} {w w' : Worker} {s s' : Session} {t t' : Tally}

end Scan

namespace Call
variable {s s' : Shared} {x x' : Call}

theorem ended_of_gave? {handle : Handle} (h : x.gave? = some handle) : x.ended = true := by
  cases x with
  | get k reader goal stage =>
    cases goal with
    | chunk => cases h
    | handle asked attempts left =>
      cases stage with
      | holding => rfl
      | _ => cases h
  | direct asked k reader stage =>
    cases stage with
    | ended => rfl
    | _ => cases h
  | invalidate | sweep | evict => cases h

theorem ended_of_answer? {answer : Except Failure ChunkRef} (h : x.answer? = some answer) :
    x.ended = true := by
  cases x with
  | get k reader goal stage =>
    cases stage with
    | holding => cases goal <;> rfl
    | answered result =>
      cases result with
      | error f => cases goal <;> rfl
      | ok chunk => cases h
    | _ => cases h
  | direct asked k reader stage =>
    cases stage with
    | ended => rfl
    | _ => cases h
  | invalidate | sweep | evict => cases h

theorem handles_step {c : Conduct} (hp : s.store.slots.Proper) (h : x.step c s = some (x', s'))
    (hnone : x'.gave? = none) : s'.handles = s.handles := by
  have hmade {occupants : Store.Occupants} {results : Store.Results} {come : Nat}
      {touched : List ChunkRef} (ht : s.Turns s' occupants results come [] touched) :
      s'.handles = s.handles := ht.handles.trans (List.append_nil _)
  cases step_goes hp h with
  | stage hstage =>
    cases hstage with
    | hit _ _ ht | join _ _ ht | miss _ ht | borrow ht | refuse ht | arrive ht _ | fail ht
    | replace ht | begin _ ht | settle _ ht | publish ht | announce ht | clear ht => exact hmade ht
    | pass ht => exact hmade ht.frees
    | receive _ | lose _ | leave => rfl
  | take => cases hnone
  | retry | refuse => rfl
  | direct hdirect =>
    cases hdirect with
    | borrow ht | refuse ht | fail ht => exact hmade ht
    | arrive => cases hnone
  | invalidate ht | sweep ht | evict ht => exact hmade ht.frees

theorem handles_eq_gave? {c : Conduct} (hp : s.store.slots.Proper)
    (h : x.step c s = some (x', s')) : s'.handles = s.handles ++ x'.gave?.toList := by
  cases hg : x'.gave? with
  | none => rw [handles_step hp h hg, Option.toList_none, List.append_nil]
  | some handle => exact (gave?_step h hg).2

end Call

namespace Scan
variable {files : Files} {accesses : List (Access × Nat)} {plan : List (List Stop)}
variable {keys : List ChunkId} {w w' : Worker} {s s' : Session} {t t' : Tally}

namespace Phase

theorem stop?_receive (stop : Stop) (i : Nat) (c : Call) :
    (receive stop i c).stop? = some stop := by
  unfold receive
  split <;> rfl

theorem counted?_receive (stop : Stop) (i : Nat) (c : Call) :
    (receive stop i c).counted? = none := by
  unfold receive
  split <;> rfl

theorem weighed?_receive (stop : Stop) (i : Nat) (c : Call) :
    (receive stop i c).weighed? = none := by
  unfold receive
  split <;> rfl

theorem handle?_receive (stop : Stop) (i : Nat) (c : Call) :
    (receive stop i c).handle? = c.gave? := by
  unfold receive
  split
  · rename_i hg
    exact hg.symm
  · rename_i hg _
    exact hg.symm
  · rename_i hg _
    exact hg.symm

theorem eq_of_receive_waiting {stop stop' : Stop} {i j : Nat} {c : Call}
    (h : receive stop i c = waiting stop' j) : stop' = stop ∧ j = i := by
  unfold receive at h
  split at h <;> cases h
  exact ⟨rfl, rfl⟩

/-- A worker leaves its call only at the end of it. -/
theorem ended_or_receive_eq (stop : Stop) (i : Nat) (c : Call) :
    c.ended = true ∨ receive stop i c = waiting stop i := by
  unfold receive
  split
  · rename_i hg
    exact .inl (Call.ended_of_gave? hg)
  · rename_i _ ha
    exact .inl (Call.ended_of_answer? ha)
  · exact .inr rfl

end Phase

namespace Worker.Moves

theorem ask {stop : Stop} (hf : s.Faithful files keys) (hw : s.traffic.Weighed)
    (ha : s.accesses = accesses) (hready : w.phase = .ready) (hrest : w.rest = stop :: w'.rest)
    (hs : s.step (.rebuffer stop.file stop.position) = some s') (hmade : w'.made = w.made)
    (hphase : w'.phase = .waiting stop s.traffic.calls.length) :
    w.Moves files accesses s t w' s' t := by
  have hhonest : Session.Use.Honest files s (.rebuffer stop.file stop.position) := trivial
  have hfaithful := Session.step_faithful_unshared hf hhonest hs (by simp)
  simp only [Session.step] at hs
  split at hs
  · rename_i a j hn
    obtain ⟨u, hu, rfl⟩ := Option.map_eq_some_iff.1 hs
    have hweighed := Traffic.step_weighed hw hu
    cases hu
    have hcalls (i : Nat) (c : Call)
        (hc : (s.traffic.calls ++ [Call.rebuffer a j stop.position])[i]? = some c) :
        s.traffic.calls[i]? = some c ∨ i = s.traffic.calls.length := by
      rcases Nat.lt_or_ge i s.traffic.calls.length with hlt | hge
      · rw [List.getElem?_append_left hlt] at hc
        exact .inl hc
      · have hlt := (List.getElem?_eq_some_iff.1 hc).1
        rw [List.length_append, List.length_singleton] at hlt
        exact .inr (by omega)
    exact {
      faithful := hfaithful
      weighed := hweighed
      granted := rfl
      settings := rfl
      route := by simp [Worker.route, Worker.requested, hready, hphase, hmade, hrest, Phase.stop?]
      asked := by
        intro i c hc
        have hlt := (List.getElem?_eq_some_iff.1 hc).1
        refine ⟨c, ?_, rfl⟩
        rwa [← List.getElem?_append_left hlt] at hc
      asks := by
        intro stop' i hwaits
        rw [hphase] at hwaits
        cases hwaits
        refine ⟨.rebuffer a j stop.position, a.reader.chunkId stop.position, ?_, ?_, ?_⟩
        · simp [Start.call]
        · exact Call.asked?_rebuffer a j stop.position
        · rw [Stop.asked?, ← ha, hn]
          rfl
      holds := by
        intro stop' handle _ hhandle
        rw [hphase] at hhandle
        cases hhandle
      handles := by
        intro others hperm
        rw [hready] at hperm
        rw [hphase]
        exact hperm
      calls := by
        intro i c hc
        rcases hcalls i c hc with hbefore | rfl
        · refine .inr (.inr ⟨hbefore, ?_⟩)
          rw [hready]
          exact Option.some_ne_none i |>.symm
        · refine .inr (.inl ?_)
          rw [hphase]
          rfl
      chunks := by simp [Worker.chunks, hready, hphase, hmade, Phase.counted?]
      bytes := by simp [Worker.bytes, hready, hphase, hmade, Phase.weighed?] }
  · cases hs

theorem wait {stop : Stop} {i : Nat} {k : ChunkId} {c c' : Call} (hf : s.Faithful files keys)
    (hw : s.traffic.Weighed) (hphase : w.phase = .waiting stop i)
    (hc : s.traffic.calls[i]? = some c) (hasked : c.asked? = some k)
    (hk : stop.asked? accesses = some k) (hs : s.step (.advance i) = some s')
    (hc' : s'.traffic.calls[i]? = some c') :
    w.Moves files accesses s t { w with phase := .receive stop i c' } s' t := by
  have hhonest : Session.Use.Honest files s (.advance i) := trivial
  have hfaithful := Session.step_faithful_unshared hf hhonest hs (by simp)
  simp only [Session.step, hc] at hs
  obtain ⟨conduct, -, hs⟩ := Option.bind_eq_some_iff.1 hs
  obtain ⟨u, hu, rfl⟩ := Option.map_eq_some_iff.1 hs
  have hweighed := Traffic.step_weighed hw hu
  have hset := Traffic.settings_of_step hw hu
  have hkept := fun j d (hd : s.traffic.calls[j]? = some d) ↦ Traffic.asked?_step hu hd
  obtain ⟨d, d', sh, hd, hstep, rfl⟩ := Traffic.advance_cases hu
  rw [hc] at hd
  cases hd
  have hlt := (List.getElem?_eq_some_iff.1 hc).1
  simp only [List.getElem?_set_self hlt] at hc'
  cases hc'
  have hasked' : c'.asked? = some k := (Call.asked?_step hstep).trans hasked
  have hothers (j : Nat) (d : Call) (hd : (s.traffic.calls.set i c')[j]? = some d) :
      (j = i ∧ d = c') ∨ (s.traffic.calls[j]? = some d ∧ w.phase.call? ≠ some j) := by
    by_cases hj : i = j
    · subst hj
      rw [List.getElem?_set_self hlt] at hd
      exact .inl ⟨rfl, (Option.some.inj hd).symm⟩
    · rw [List.getElem?_set_ne hj] at hd
      refine .inr ⟨hd, ?_⟩
      rw [hphase]
      exact fun he ↦ hj (Option.some.inj he)
  exact {
    faithful := hfaithful
    weighed := hweighed
    granted := rfl
    settings := hset
    route := by
      have hstop : w.phase.stop? = some stop := congrArg Phase.stop? hphase
      simp only [Worker.route, Worker.requested, hstop, Phase.stop?_receive]
    asked := hkept
    asks := by
      intro stop' j hwaits
      obtain ⟨rfl, rfl⟩ := Phase.eq_of_receive_waiting hwaits
      exact ⟨c', k, List.getElem?_set_self hlt, hasked', hk⟩
    holds := by
      intro stop' handle hstop hhandle
      rw [Phase.stop?_receive] at hstop
      rw [Phase.handle?_receive] at hhandle
      cases hstop
      exact ⟨k, (Call.gave?_step hstep hhandle).1.trans hasked, hk⟩
    handles := by
      intro others hperm
      rw [hphase] at hperm
      simp only [Session.shared, Call.handles_eq_gave? hw.proper hstep, Phase.handle?_receive]
      exact (hperm.append_right _).trans List.perm_append_comm
    calls := by
      intro j d hd
      rcases hothers j d hd with ⟨rfl, rfl⟩ | hother
      · rcases Phase.ended_or_receive_eq stop j d with hended | he
        · exact .inl hended
        · exact .inr (.inl (congrArg Phase.call? he))
      · exact .inr (.inr hother)
    chunks := by
      have hcounted : w.phase.counted? = none := congrArg Phase.counted? hphase
      simp only [Worker.chunks, hcounted, Phase.counted?_receive]
    bytes := by
      have hnone : w.phase.weighed? = none := congrArg Phase.weighed? hphase
      simp only [Worker.bytes, hnone, Phase.weighed?_receive] }

theorem stay (hf : s.Faithful files keys) (hw : s.traffic.Weighed) (hmade : w'.made = w.made)
    (hrest : w'.rest = w.rest) (hstop : w'.phase.stop? = w.phase.stop?)
    (hhandle : w'.phase.handle? = w.phase.handle?) (hcall : w.phase.call? = none)
    (hcall' : w'.phase.call? = none)
    (hholds : ∀ stop handle, w.phase.stop? = some stop → w.phase.handle? = some handle →
      ∃ k, handle.asked = some k ∧ stop.asked? accesses = some k)
    (hchunks : t'.chunks + w.chunks = t.chunks + w'.chunks)
    (hbytes : t'.bytes + w.bytes (Stop.size files accesses) =
      t.bytes + w'.bytes (Stop.size files accesses)) : w.Moves files accesses s t w' s t' where
  faithful := ⟨keys, hf⟩
  weighed := hw
  granted := rfl
  settings := rfl
  route := by
    rw [Worker.route, Worker.route, Worker.requested, Worker.requested, hmade, hrest, hstop]
  asked := by
    intro i c hc
    exact ⟨c, hc, rfl⟩
  asks := by
    intro stop i hwaits
    rw [hwaits] at hcall'
    cases hcall'
  holds := by
    rw [hstop, hhandle]
    exact hholds
  handles := by
    intro others hperm
    rwa [hhandle]
  calls := by
    intro i c hc
    refine .inr (.inr ⟨hc, ?_⟩)
    rw [hcall]
    exact (Option.some_ne_none i).symm
  chunks := hchunks
  bytes := hbytes

theorem leave {handle : Handle} (hf : s.Faithful files keys) (hw : s.traffic.Weighed)
    (hroute : w'.route = w.route) (hhandle : w.phase.handle? = some handle)
    (hhandle' : w'.phase.handle? = none) (hcall : w.phase.call? = none)
    (hcall' : w'.phase.call? = none) (hchunks : w'.chunks = w.chunks)
    (hbytes : w'.bytes (Stop.size files accesses) = w.bytes (Stop.size files accesses))
    (hs : s.step (.release (s.shared.handles.idxOf handle)) = some s') :
    w.Moves files accesses s t w' s' t := by
  have hhonest : Session.Use.Honest files s (.release (s.shared.handles.idxOf handle)) := trivial
  have hfaithful := Session.step_faithful_unshared hf hhonest hs (by simp)
  obtain ⟨u, hu, rfl⟩ := Option.map_eq_some_iff.1 hs
  have hweighed := Traffic.step_weighed hw hu
  have hset := Traffic.settings_of_step hw hu
  have hkept := fun j d (hd : s.traffic.calls[j]? = some d) ↦ Traffic.asked?_step hu hd
  simp only [Traffic.step] at hu
  split at hu
  · cases hu
    exact {
      faithful := hfaithful
      weighed := hweighed
      granted := rfl
      settings := hset
      route := hroute
      asked := hkept
      asks := by
        intro stop i hwaits
        rw [hwaits] at hcall'
        cases hcall'
      holds := by
        intro stop other _ hother
        rw [hhandle'] at hother
        cases hother
      handles := by
        intro others hperm
        rw [hhandle] at hperm
        rw [hhandle']
        have herase := hperm.erase handle
        rw [Option.toList_some, List.singleton_append, List.erase_cons_head,
          List.erase_eq_eraseIdx_of_idxOf rfl] at herase
        exact herase
      calls := by
        intro i c hc
        refine .inr (.inr ⟨hc, ?_⟩)
        rw [hcall]
        exact (Option.some_ne_none i).symm
      chunks := by rw [hchunks]
      bytes := by rw [hbytes] }
  · cases hu

end Worker.Moves

variable {c d : Crew}

theorem Crew.Sound.moves (h : c.Sound files accesses plan) {i : Nat} (hw : c.workers[i]? = some w)
    (hm : w.Moves files accesses c.session c.tally w' s' t') :
    Crew.Sound files accesses plan ⟨s', c.workers.set i w', t'⟩ := by
  obtain ⟨hlt, hget⟩ := List.getElem?_eq_some_iff.1 hw
  have hold : c.workers.Perm (w :: c.workers.eraseIdx i) := by
    rw [← hget]
    exact (List.getElem_cons_eraseIdx_perm hlt).symm
  have hnew : (c.workers.set i w').Perm (w' :: c.workers.eraseIdx i) :=
    List.set_perm_cons_eraseIdx hlt w'
  have hmem {x : Worker} (hx : x ∈ c.workers.set i w') : x = w' ∨ x ∈ c.workers :=
    (List.mem_or_eq_of_mem_set hx).symm
  have hself : w' ∈ c.workers.set i w' := hnew.symm.subset List.mem_cons_self
  have hsum (f : Worker → Nat) :
      ((c.workers.set i w').map f).sum + f w = (c.workers.map f).sum + f w' := by
    rw [(hnew.map f).sum_nat, (hold.map f).sum_nat, List.map_cons, List.map_cons, List.sum_cons,
      List.sum_cons]
    omega
  refine ⟨hm.faithful, hm.weighed, hm.granted.trans h.granted, ?routes, ?asks, ?holds, ?handles,
    ?calls, ?chunks, ?bytes⟩
  case routes =>
    have hsame : (c.workers.map Worker.route).set i w.route = c.workers.map Worker.route := by
      rw [← hget, ← List.getElem_map Worker.route, List.set_getElem_self]
      simpa using hlt
    rw [List.map_set, hm.route, hsame, h.routes]
  case asks =>
    intro x hx stop j hwaits
    rcases hmem hx with rfl | hx
    · exact hm.asks stop j hwaits
    · obtain ⟨call, k, hcall, hasked, hk⟩ := h.asks x hx stop j hwaits
      obtain ⟨call', hcall', hasked'⟩ := hm.asked j call hcall
      exact ⟨call', k, hcall', hasked'.trans hasked, hk⟩
  case holds =>
    intro x hx stop handle hstop hhandle
    rcases hmem hx with rfl | hx
    · exact hm.holds stop handle hstop hhandle
    · exact h.holds x hx stop handle hstop hhandle
  case handles =>
    have hbefore := h.handles.trans (hold.flatMap_right fun x ↦ x.phase.handle?.toList)
    have hafter : ((c.workers.set i w').flatMap fun x ↦ x.phase.handle?.toList).Perm
        ((w' :: c.workers.eraseIdx i).flatMap fun x ↦ x.phase.handle?.toList) :=
      hnew.flatMap_right _
    exact (hm.handles _ hbefore).trans hafter.symm
  case calls =>
    intro j call hcall
    rcases hm.calls j call hcall with hended | hwaits | ⟨hbefore, hother⟩
    · exact .inl hended
    · exact .inr ⟨w', hself, hwaits⟩
    -- The worker that moves did not wait for this call, so whoever does waits for it still.
    · rcases h.calls j call hbefore with hended | ⟨x, hx, hwaits⟩
      · exact .inl hended
      · rcases List.mem_cons.1 (hold.subset hx) with rfl | hx
        · exact absurd hwaits hother
        · exact .inr ⟨x, hnew.symm.subset (List.mem_cons_of_mem _ hx), hwaits⟩
  case chunks =>
    have hchunks := hm.chunks
    have hone := hsum Worker.chunks
    rw [h.chunks] at hchunks
    exact Nat.add_right_cancel (hchunks.trans hone.symm)
  case bytes =>
    have hbytes := hm.bytes
    have hone := hsum (Worker.bytes (Stop.size files accesses))
    rw [h.bytes] at hbytes
    exact Nat.add_right_cancel (hbytes.trans hone.symm)

theorem Stop.bytes_of_holds {stop : Stop} {handle : Handle} {k : ChunkId}
    (hf : s.Faithful files keys) (hm : handle ∈ s.shared.handles) (ha : handle.asked = some k)
    (hk : stop.asked? accesses = some k) :
    (s.shared.bytes handle).size = stop.size files accesses := by
  obtain ⟨chunk, -, -, hview⟩ := hf.reads hm ha
  simp only [Shared.bytes, hview, Option.getD_some, size, hk]

theorem Worker.step_moves (h : c.Sound files accesses plan) {i : Nat}
    (hw : c.workers[i]? = some w) (hs : w.step c.session c.tally = some (w', s', t')) :
    w.Moves files accesses c.session c.tally w' s' t' := by
  obtain ⟨keys, hf⟩ := h.faithful
  have hmem := List.mem_of_getElem? hw
  have hholds := h.holds w hmem
  obtain ⟨made, rest, phase⟩ := w
  cases phase with
  | ready =>
    cases rest with
    | nil => cases hs
    | cons stop rest =>
      obtain ⟨s'', hstep, he⟩ := Option.map_eq_some_iff.1 hs
      cases he
      exact .ask hf h.weighed h.granted rfl rfl hstep rfl rfl
  | waiting stop j =>
    obtain ⟨s'', hstep, hs⟩ := Option.bind_eq_some_iff.1 hs
    obtain ⟨call', hcall', he⟩ := Option.map_eq_some_iff.1 hs
    cases he
    obtain ⟨call, k, hcall, hasked, hk⟩ := h.asks _ hmem stop j rfl
    exact .wait hf h.weighed rfl hcall hasked hk hstep hcall'
  | served stop handle =>
    obtain ⟨r, -, he⟩ := Option.map_eq_some_iff.1 hs
    split at he <;> cases he
    · exact .stay hf h.weighed rfl rfl rfl rfl rfl rfl hholds rfl rfl
    · exact .stay hf h.weighed rfl rfl rfl rfl rfl rfl hholds rfl rfl
  | agreed stop handle =>
    cases hs
    refine .stay hf h.weighed rfl rfl rfl rfl rfl rfl hholds ?_ rfl
    simp only [chunks, Phase.counted?, Option.toList_none, Option.toList_some, List.length_append,
      List.length_nil, List.length_singleton]
    omega
  | counted stop handle =>
    cases hs
    obtain ⟨k, ha, hk⟩ := hholds stop handle rfl rfl
    have hhas : handle ∈ c.session.shared.handles :=
      h.handles.symm.subset (List.mem_flatMap.2 ⟨_, hmem, List.mem_singleton_self handle⟩)
    have hsize := Stop.bytes_of_holds hf hhas ha hk
    refine .stay hf h.weighed rfl rfl rfl rfl rfl rfl hholds rfl ?_
    simp only [bytes, Phase.weighed?, Option.toList_none, Option.toList_some, List.map_append,
      List.sum_append, List.map_nil, List.sum_nil, List.map_singleton, List.sum_singleton, hsize]
    omega
  | leaving stop handle =>
    obtain ⟨s'', hstep, he⟩ := Option.map_eq_some_iff.1 hs
    cases he
    refine .leave hf h.weighed ?_ rfl rfl rfl rfl ?_ ?_ hstep
    · simp [route, requested, Phase.stop?]
    · simp [chunks, Phase.counted?]
    · simp [bytes, Phase.weighed?]
  | refusing stop handle failure =>
    obtain ⟨s'', hstep, he⟩ := Option.map_eq_some_iff.1 hs
    cases he
    exact .leave hf h.weighed rfl rfl rfl rfl rfl rfl rfl hstep
  | failed => cases hs

theorem Crew.step_sound (h : c.Sound files accesses plan) {i : Nat} (hs : c.step i = some d) :
    d.Sound files accesses plan ∧
      d.session.shared.store.settings = c.session.shared.store.settings := by
  simp only [step] at hs
  split at hs
  · cases hs
  · rename_i w hw
    obtain ⟨⟨w', s', t'⟩, hstep, rfl⟩ := Option.map_eq_some_iff.1 hs
    have hmoves := Worker.step_moves h hw hstep
    exact ⟨h.moves hw hmoves, hmoves.settings⟩

/-- What is behind a reader concerns nobody but those who read. -/
theorem Crew.turn_sound (h : c.Sound files accesses plan) {reader : Nat} {source : ByteSource}
    (hu : Session.Use.Honest files c.session (.turn reader source))
    (hs : c.session.step (.turn reader source) = some s') :
    Crew.Sound files accesses plan { c with session := s' } := by
  obtain ⟨keys, hf⟩ := h.faithful
  have hfaithful := Session.step_faithful_unshared hf hu hs (by simp)
  cases hs
  exact ⟨hfaithful, ⟨h.weighed.proper, h.weighed.weight⟩, h.granted, h.routes, h.asks, h.holds,
    h.handles, h.calls, h.chunks, h.bytes⟩

theorem Crew.sound_of_reaches (h : c.Sound files accesses plan) (hr : c.Reaches files d) :
    d.Sound files accesses plan ∧
      d.session.shared.store.settings = c.session.shared.store.settings := by
  induction hr with
  | refl => exact ⟨h, rfl⟩
  | step i _ hs ih =>
    obtain ⟨hsound, hset⟩ := step_sound ih.1 hs
    exact ⟨hsound, hset.trans ih.2⟩
  | turn reader source _ hu hs ih =>
    have hsound := turn_sound ih.1 hu hs
    cases hs
    exact ⟨hsound, ih.2⟩

end Scan
end ReadCache
