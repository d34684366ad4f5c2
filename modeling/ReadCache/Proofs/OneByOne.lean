import ReadCache.Proofs.Attempts
import ReadCache.Proofs.Coverage
import ReadCache.Proofs.Scanning

namespace ReadCache

open Relation

namespace Action
variable {σ α β : Type}

/-- The action does to the engine what one does that has nothing else to act on. -/
def Keeps (f : Action (Engine × σ) α) (g : Action (Engine × Unit) α) : Prop :=
  ∀ e s, f (e, s) = ((g (e, ())).1, (g (e, ())).2.1, s)

theorem Keeps.bind {f : Action (Engine × σ) α} {g : Action (Engine × Unit) α}
    {f' : α → Action (Engine × σ) β} {g' : α → Action (Engine × Unit) β} (h : Keeps f g)
    (h' : ∀ a, Keeps (f' a) (g' a)) : Keeps (f >>= f') (g >>= g') := by
  intro e s
  rw [bind_eq, bind_eq, h e s]
  rcases g (e, ()) with ⟨_ | a, e', ⟨⟩⟩
  · rfl
  · exact h' a e' s

end Action

namespace Engine
variable {σ : Type}

theorem keeps_loadBlock (r : Reader) (c : Conduct) (position : UInt64) (roundUp : Bool) :
    Action.Keeps (loadBlock r (fun _ b (s : Engine × σ) ↦ (c.outcome b, s)) position roundUp)
      (loadBlock r c.physicalRead position roundUp) := by
  apply Action.Keeps.bind
  · intro e s
    simp only [acquireFor]
    split <;> rfl
  · intro b e s
    simp only [readInto, Conduct.physicalRead]
    rcases c.outcome b with ⟨_ | _, b'⟩ <;> rfl

theorem keeps_getOrLoadWith (k : ChunkId) {load : Action (Engine × σ) Block}
    {load' : Action (Engine × Unit) Block} (h : Action.Keeps load load') :
    Action.Keeps (getOrLoadWith k load) (getOrLoadWith k load') := by
  intro e s
  simp only [getOrLoadWith]
  rcases e.request k with ⟨_ | _ | t, e'⟩
  · rfl
  · rfl
  · simp only [h e' s]
    rcases load' (e', ()) with ⟨loaded, e'', ⟨⟩⟩
    rfl

end Engine

namespace Access
variable {σ : Type}

theorem keeps_attempt (k : ChunkId) {load : Action (Engine × σ) Block}
    {load' : Action (Engine × Unit) Block} (h : Action.Keeps load load') (attempts : UInt32)
    (left : Nat) : Action.Keeps (attempt k load attempts left) (attempt k load' attempts left) := by
  induction left with
  | zero => exact fun e s ↦ rfl
  | succ left ih =>
    apply (Engine.keeps_getOrLoadWith k h).bind
    intro chunk
    apply Action.Keeps.bind
    · intro e s
      rfl
    · intro got
      cases got
      · exact ih
      · intro e s
        rfl

theorem keeps_rebuffer (a : Access) (position : UInt64) :
    Action.Keeps (σ := σ) (a.rebuffer a.reader.physicalRead position)
      (a.rebuffer (Conduct.ofReader a.reader (a.aligned position)).physicalRead position) := by
  intro e s
  have hload := Engine.keeps_loadBlock (σ := σ) a.reader (.ofReader a.reader (a.aligned position))
    (a.aligned position)
  unfold rebuffer
  cases a.mode with
  | cached attempts => exact keeps_attempt _ (hload _) _ _ e s
  | direct =>
    have hdirect : Engine.loadBlock a.reader a.reader.physicalRead (a.aligned position) false
        (e, s) = _ := hload false e s
    simp only [hdirect]
    rcases Engine.loadBlock a.reader (Conduct.ofReader a.reader (a.aligned position)).physicalRead
      (a.aligned position) false (e, ()) with ⟨loaded, e', ⟨⟩⟩
    rfl

end Access

namespace Call
variable {s s' : Shared} {c : Conduct} {x x' : Call}

theorem reads_step (h : x.step c s = some (x', s')) : x'.reads = x.reads := by
  cases steps h <;> rfl

theorem same_of_uninterrupted (h : Uninterrupted (step c) (x, s) (x', s')) :
    x'.reads = x.reads ∧ x'.asked? = x.asked? ∧ s'.readers = s.readers := by
  have hsame {a b : Call × Shared} (h : Uninterrupted (step c) a b) :
      b.1.reads = a.1.reads ∧ b.1.asked? = a.1.asked? ∧ b.2.readers = a.2.readers := by
    induction h with
    | refl => exact ⟨rfl, rfl, rfl⟩
    | tail _ hstep ih =>
      obtain ⟨hreads, hasked, hreaders⟩ := ih
      exact ⟨(reads_step hstep).trans hreads, (asked?_step hstep).trans hasked,
        (step_readers hstep).trans hreaders⟩
  exact hsame h

theorem answer?_rebuffer_ne (a : Access) (reader : Nat) (position : UInt64) (chunk : ChunkRef) :
    (rebuffer a reader position).answer? ≠ some (.ok chunk) := by
  unfold rebuffer
  split
  · split <;> simp [answer?]
  · simp [answer?]

theorem gave?_of_answer? {k : ChunkId} {chunk : ChunkRef} (h : x.answer? = some (.ok chunk))
    (hk : x.asked? = some k) : x.gave? = some ⟨chunk, some k⟩ := by
  cases x with
  | get k' reader goal stage =>
    cases stage with
    | holding chunk' =>
      cases goal with
      | chunk => cases hk
      | handle asked attempts left =>
        cases h
        cases hk
        rfl
    | answered result => cases result <;> cases h
    | _ => cases h
  | direct asked k' reader stage =>
    cases stage with
    | ended answer =>
      cases h
      cases hk
      rfl
    | _ => cases h
  | invalidate | sweep | evict => cases h

end Call

theorem Session.step_advance {s : Session} {sh : Shared} {x x' : Call} {i reader : Nat}
    {k : ChunkId} {r : Reader} (hx : s.traffic.calls[i]? = some x)
    (hk : x.reads = some (reader, k)) (hr : s.shared.readers[reader]? = some r)
    (hs : x.step (.ofReader r k.position) s.shared = some (x', sh)) :
    s.step (.advance i) = some { s with traffic := ⟨sh, s.traffic.calls.set i x'⟩ } := by
  simp only [step, hx, conduct?, hk, hr, Option.map_some, Option.bind_some, move, Traffic.step, hs]

namespace Scan
variable {files : Files} {accesses : List (Access × Nat)} {plan : List (List Stop)}
variable {c d : Crew} {w : Worker} {i : Nat}

theorem Phase.receive_of_step {stop : Stop} {j : Nat} {x x' : Call} {conduct : Conduct}
    {s s' : Shared} (h : x.step conduct s = some (x', s')) :
    receive stop j x = waiting stop j := by
  rcases ended_or_receive_eq stop j x with hended | he
  · rw [Call.step_of_ended hended] at h
    cases h
  · exact he

theorem Crew.Reaches.worker {s s' : Session} {workers : List Worker} {t t' : Tally} {w' : Worker}
    (h : c.Reaches files ⟨s, workers.set i w, t⟩) (hlt : i < workers.length)
    (hs : w.step s t = some (w', s', t')) : c.Reaches files ⟨s', workers.set i w', t'⟩ := by
  refine .step i h ?_
  simp only [Crew.step, List.getElem?_set_self hlt, hs, Option.map_some, List.set_set]

theorem set_of_getElem? {α : Type} {l : List α} {i : Nat} {a : α} (h : l[i]? = some a) :
    l.set i a = l := by
  obtain ⟨hlt, rfl⟩ := List.getElem?_eq_some_iff.1 h
  exact List.set_getElem_self hlt

theorem Crew.Reaches.wait {s : Session} {workers : List Worker} {t : Tally} {made rest : List Stop}
    {stop : Stop} {j reader : Nat} {k : ChunkId} {r : Reader} {x x' : Call} {sh : Shared}
    (h : c.Reaches files ⟨s, workers.set i ⟨made, rest, .receive stop j x⟩, t⟩)
    (hlt : i < workers.length) (hx : s.traffic.calls[j]? = some x)
    (hk : x.reads = some (reader, k)) (hr : s.shared.readers[reader]? = some r)
    (hrun : Uninterrupted (Call.step (.ofReader r k.position)) (x, s.shared) (x', sh)) :
    c.Reaches files ⟨{ s with traffic := ⟨sh, s.traffic.calls.set j x'⟩ },
      workers.set i ⟨made, rest, .receive stop j x'⟩, t⟩ := by
  have hall {a : Call × Shared}
      (hrun : Uninterrupted (Call.step (.ofReader r k.position)) (x, s.shared) a) :
      c.Reaches files ⟨{ s with traffic := ⟨a.2, s.traffic.calls.set j a.1⟩ },
        workers.set i ⟨made, rest, .receive stop j a.1⟩, t⟩ := by
    induction hrun with
    | refl =>
      rw [set_of_getElem? hx]
      exact h
    | @tail a b hbefore hstep ih =>
      obtain ⟨x₁, s₁⟩ := a
      obtain ⟨x₂, s₂⟩ := b
      obtain ⟨hreads, -, hreaders⟩ := Call.same_of_uninterrupted hbefore
      have hj := (List.getElem?_eq_some_iff.1 hx).1
      have hadvance := Session.step_advance
        (s := { s with traffic := ⟨s₁, s.traffic.calls.set j x₁⟩ })
        (List.getElem?_set_self hj) (hreads.trans hk) (hreaders ▸ hr) hstep
      refine ih.worker hlt ?_
      simp only [Worker.step, Phase.receive_of_step hstep, hadvance, Option.bind_some,
        List.set_set, List.getElem?_set_self hj, Option.map_some]
  exact hall hrun

theorem readAt_ok {file : File} {position : UInt64} {e : Engine} {t : Tally} {st : Workspace}
    (h : readAt file position (e, t) = (.ok (), st)) :
    ∃ chunk e', file.access.rebuffer (Conduct.ofReader file.access.reader
        (file.access.aligned position)).physicalRead position (e, ()) = (.ok chunk, e', ()) ∧
      verify file.source (((e'.memory.chunk? chunk).map Chunk.offset).getD 0)
        ((e'.memory.view? chunk).getD ByteArray.empty) = .ok () ∧
      st = (e'.onMemory (·.unreference chunk),
        ⟨t.chunks + 1, t.bytes + ((e'.memory.view? chunk).getD ByteArray.empty).size⟩) := by
  unfold readAt at h
  rw [file.access.keeps_rebuffer position e t] at h
  rcases hr : file.access.rebuffer (Conduct.ofReader file.access.reader
    (file.access.aligned position)).physicalRead position (e, ()) with ⟨f | chunk, e', ⟨⟩⟩ <;>
    rw [hr] at h <;> simp only at h
  · cases h
  · refine ⟨chunk, e', rfl, ?_⟩
    cases hv : verify file.source (((e'.memory.chunk? chunk).map Chunk.offset).getD 0)
      ((e'.memory.view? chunk).getD ByteArray.empty) with
    | error failure =>
      rw [hv] at h
      cases h
    | ok =>
      rw [hv] at h
      cases h
      exact ⟨rfl, rfl⟩

theorem Crew.Reaches.serve {s : Session} {workers : List Worker} {t : Tally} {made rest : List Stop}
    {stop : Stop} {a : Access} {x : Call} {sh : Shared} {chunk : ChunkRef}
    (h : c.Reaches files ⟨s, workers, t⟩) (hw : workers[i]? = some ⟨made, stop :: rest, .ready⟩)
    (ha : s.accesses[stop.file]? = some (a, stop.file))
    (hr : s.shared.readers[stop.file]? = some a.reader)
    (hrun : Uninterrupted (Call.step (.ofReader a.reader (a.aligned stop.position)))
      (Call.rebuffer a stop.file stop.position, s.shared) (x, sh))
    (hanswer : x.answer? = some (.ok chunk)) :
    c.Reaches files
      ⟨{ s with traffic := ⟨sh, s.traffic.calls ++ [x]⟩ },
        workers.set i ⟨made, rest, .served stop ⟨chunk, some (a.reader.chunkId stop.position)⟩⟩,
        t⟩ := by
  have hlt := (List.getElem?_eq_some_iff.1 hw).1
  have hasks : Worker.step ⟨made, stop :: rest, .ready⟩ s t =
      some (⟨made, rest, .waiting stop s.traffic.calls.length⟩,
        { s with
          traffic := ⟨s.shared, s.traffic.calls ++ [Call.rebuffer a stop.file stop.position]⟩ },
        t) := by
    simp only [Worker.step, Session.step, ha, Session.move, Traffic.step, Option.map_some]
    rfl
  have hwaits : Phase.receive stop s.traffic.calls.length
      (Call.rebuffer a stop.file stop.position) = .waiting stop s.traffic.calls.length := by
    rcases hrun.cases_head with he | ⟨b, hstep, -⟩
    · cases he
      exact absurd hanswer (Call.answer?_rebuffer_ne _ _ _ _)
    · exact Phase.receive_of_step hstep
  obtain ⟨-, hkept, -⟩ := Call.same_of_uninterrupted hrun
  have hgave : x.gave? = some ⟨chunk, some (a.reader.chunkId stop.position)⟩ :=
    Call.gave?_of_answer? hanswer (hkept.trans (Call.asked?_rebuffer _ _ _))
  rw [← set_of_getElem? hw] at h
  have hasked := h.worker hlt hasks
  rw [← hwaits] at hasked
  have hserved := hasked.wait hlt (by simp) (Call.reads_rebuffer _ _ _) hr hrun
  have hreceives : Phase.receive stop s.traffic.calls.length x =
      .served stop ⟨chunk, some (a.reader.chunkId stop.position)⟩ := by
    simp only [Phase.receive, hgave]
  simpa [hreceives] using hserved

theorem Crew.Reaches.leave {s : Session} {workers : List Worker} {t : Tally} {made rest : List Stop}
    {stop : Stop} {handle : Handle} {r : Reader}
    (h : c.Reaches files ⟨s, workers.set i ⟨made, rest, .served stop handle⟩, t⟩)
    (hlt : i < workers.length) (hr : s.shared.readers[stop.file]? = some r)
    (hm : handle ∈ s.shared.handles)
    (hv : verify r.source (s.shared.offset handle) (s.shared.bytes handle) = .ok ()) :
    c.Reaches files
      ⟨{ s with
          traffic := s.traffic.onShared fun sh ↦
            { sh.unreference handle.chunk with
              handles := sh.handles.eraseIdx (sh.handles.idxOf handle) } },
        workers.set i ⟨made ++ [stop], rest, .ready⟩,
        ⟨t.chunks + 1, t.bytes + (s.shared.bytes handle).size⟩⟩ := by
  have hagrees : Worker.step ⟨made, rest, .served stop handle⟩ s t =
      some (⟨made, rest, .agreed stop handle⟩, s, t) := by
    simp only [Worker.step, hr, hv, Option.map_some]
  have hleaving := ((h.worker hlt hagrees).worker hlt rfl).worker hlt rfl
  refine hleaving.worker hlt ?_
  simp only [Worker.step, Session.step, Session.move, Traffic.step, List.getElem?_idxOf hm,
    Option.map_some]
  rfl

/-- The files were opened through one cache, and what is evicted goes in batches of some size. -/
structure Crew.Fit (files : Files) (accesses : List (Access × Nat)) (plan : List (List Stop))
    (c : Crew) : Prop where
  sound : c.Sound files accesses plan
  readers : c.session.shared.readers = accesses.map (·.1.reader)
  batch : c.session.shared.store.batchSize ≠ 0

/-- Between two reads of a worker, when the others have none under way. -/
structure Crew.Rests (files : Files) (c d : Crew) (st : Workspace) : Prop where
  reaches : c.Reaches files d
  engine : d.session.shared.engine = st.1
  tally : d.tally = st.2
  cache : d.session.cache = c.session.cache
  readers : d.session.shared.readers = c.session.shared.readers
  evicting : d.session.shared.evicting = false
  idle : d.session.traffic.idle = true

theorem Crew.Rests.read {st st' : Workspace} {made rest : List Stop} {stop : Stop} {file : File}
    (hc : c.Fit files accesses plan) (h : c.Rests files d st)
    (hw : d.workers[i]? = some ⟨made, stop :: rest, .ready⟩)
    (hfile : accesses[stop.file]? = some (file.access, stop.file))
    (hsource : file.access.reader.source = file.source)
    (hr : readAt file stop.position st = (.ok (), st')) :
    ∃ d', c.Rests files d' st' ∧ d'.workers = d.workers.set i ⟨made ++ [stop], rest, .ready⟩ := by
  obtain ⟨s, workers, t⟩ := d
  obtain ⟨e, t'⟩ := st
  obtain ⟨hreaches, hengine, htally, hcache, hreaders, hfree, hidle⟩ := h
  cases hengine
  cases htally
  obtain ⟨chunk, e', hcall, hverify, rfl⟩ := readAt_ok hr
  obtain ⟨hsound, hset⟩ := sound_of_reaches hc.sound hreaches
  have hlt := (List.getElem?_eq_some_iff.1 hw).1
  have haccess : s.accesses[stop.file]? = some (file.access, stop.file) := by
    rw [hsound.granted, hfile]
  have hreader : s.shared.readers[stop.file]? = some file.access.reader := by
    rw [hreaders, hc.readers, List.getElem?_map, hfile]
    rfl
  obtain ⟨hheld, -, howes⟩ := Traffic.at_rest hidle
  have hcoherent : s.shared.store.Coherent :=
    Traffic.coherent_of_undisturbed hsound.weighed ⟨hheld, howes, hfree⟩
  have hbatch : s.shared.store.batchSize ≠ 0 := by
    rw [Store.batchSize, hset]
    exact hc.batch
  obtain ⟨x, sh, hrun, hleaves⟩ : ∃ x sh,
      Uninterrupted (Call.step (.ofReader file.access.reader (file.access.aligned stop.position)))
        (Call.rebuffer file.access stop.file stop.position, s.shared) (x, sh) ∧
      Call.Leaves s.shared (file.access.reader.chunkId stop.position) (.ok chunk) e' x sh :=
    Call.uninterrupted_rebuffer rfl hcoherent hbatch hfree hcall (by simp)
  obtain ⟨hanswer, rfl, hhandles, hkept, hquiet⟩ := hleaves
  have hserved := hreaches.serve hw haccess hreader hrun hanswer
  have hgiven : ⟨chunk, some (file.access.reader.chunkId stop.position)⟩ ∈ sh.handles := by
    rw [hhandles]
    exact List.mem_append_right _ (List.mem_singleton_self _)
  have hleft := hserved.leave hlt (hkept ▸ hreader) hgiven (hsource ▸ hverify)
  refine ⟨_, ⟨hleft, rfl, rfl, hcache, hkept.trans hreaders, hquiet, ?_⟩, rfl⟩
  have hended : (s.traffic.calls ++ [x]).all Call.ended = true := by
    rw [List.all_append, Bool.and_eq_true]
    exact ⟨hidle, by simp [Call.ended_of_answer? hanswer]⟩
  exact hended

theorem Work.bind_ok {α β : Type} {x : Work α} {f : α → Work β} {b : β} {st st' : Workspace}
    (h : (x >>= f) st = (.ok b, st')) :
    ∃ a st₁, x st = (.ok a, st₁) ∧ f a st₁ = (.ok b, st') := by
  replace h : ExceptT.bind x f st = (.ok b, st') := h
  simp only [ExceptT.bind, ExceptT.mk, bind, StateT.bind] at h
  rcases hx : x st with ⟨failure | a, st₁⟩ <;> rw [hx] at h
  · cases h
  · exact ⟨a, st₁, rfl, h⟩

/-- Work that succeeds takes a worker, whichever it is, along those stops. -/
def Follows (files : Files) (c : Crew) (stops : List Stop) (work : Work Unit) : Prop :=
  ∀ d st st' i made rest, c.Rests files d st →
    d.workers[i]? = some ⟨made, stops ++ rest, .ready⟩ → work st = (.ok (), st') →
    ∃ d', c.Rests files d' st' ∧ d'.workers = d.workers.set i ⟨made ++ stops, rest, .ready⟩

theorem follows_nil : Follows files c [] (pure ()) := by
  intro d st st' i made rest h hw hr
  cases hr
  refine ⟨d, h, ?_⟩
  rw [List.append_nil]
  exact (set_of_getElem? hw).symm

theorem Follows.append {stops stops' : List Stop} {work work' : Work Unit}
    (h : Follows files c stops work) (h' : Follows files c stops' work') :
    Follows files c (stops ++ stops') (do work; work') := by
  intro d st st' i made rest hrests hw hr
  obtain ⟨⟨⟩, st₁, hfirst, hsecond⟩ := Work.bind_ok hr
  rw [List.append_assoc] at hw
  have hlt := (List.getElem?_eq_some_iff.1 hw).1
  obtain ⟨d₁, hrests₁, hworkers⟩ := h d st st₁ i made (stops' ++ rest) hrests hw hfirst
  have hw₁ : d₁.workers[i]? = some ⟨made ++ stops, stops' ++ rest, .ready⟩ := by
    rw [hworkers, List.getElem?_set_self hlt]
  obtain ⟨d₂, hrests₂, hworkers₂⟩ := h' d₁ st₁ st' i _ rest hrests₁ hw₁ hsecond
  refine ⟨d₂, hrests₂, ?_⟩
  rw [hworkers₂, hworkers, List.set_set, List.append_assoc]

theorem follows_readAt {stop : Stop} {file : File} (hc : c.Fit files accesses plan)
    (hfile : accesses[stop.file]? = some (file.access, stop.file))
    (hsource : file.access.reader.source = file.source) :
    Follows files c [stop] (readAt file stop.position) :=
  fun _ _ _ _ _ _ hrests hw hr ↦ hrests.read hc hw hfile hsource hr

theorem follows_readFile {n : Nat} {file : File} (hc : c.Fit files accesses plan)
    (hfile : accesses[n]? = some (file.access, n))
    (hsource : file.access.reader.source = file.source) (step worker : Nat) {count left : Nat}
    (hle : left ≤ count) :
    Follows files c
      ((List.range' (count - left) left).map fun i ↦
        ⟨n, .ofNat (position file.length step worker i)⟩)
      (readFile file step worker count left) := by
  induction left with
  | zero => exact follows_nil
  | succ left ih =>
    have hnext : count - (left + 1) + 1 = count - left := by omega
    rw [List.range'_succ, List.map_cons, hnext]
    exact (follows_readAt hc hfile hsource).append (ih (Nat.le_of_succ_le hle))

theorem follows_readFiles {opened : List File} {n : Nat} (hc : c.Fit files accesses plan)
    (hfiles : ∀ (i : Nat) (file : File), opened[i]? = some file →
      accesses[i + n]? = some (file.access, i + n) ∧ file.access.reader.source = file.source)
    (step worker : Nat) :
    Follows files c
      (((opened.map File.length).zipIdx n).flatMap fun v ↦
        (visits v.1 step worker).map fun p ↦ ⟨v.2, .ofNat p⟩)
      (readFiles opened step worker) := by
  induction opened generalizing n with
  | nil => exact follows_nil
  | cons file opened ih =>
    obtain ⟨hfile, hsource⟩ := hfiles 0 file rfl
    rw [Nat.zero_add] at hfile
    have hread := follows_readFile hc hfile hsource step worker
      (Nat.le_refl (chunkCount file.length step))
    rw [Nat.sub_self, ← List.range_eq_range'] at hread
    have hrest := ih (n := n + 1) fun i other hi ↦ by
      have hother := hfiles (i + 1) other hi
      rwa [Nat.add_right_comm, Nat.add_assoc] at hother
    rw [List.map_cons, List.zipIdx_cons, List.flatMap_cons]
    have hvisits : (visits file.length step worker).map (fun p ↦ (⟨n, .ofNat p⟩ : Stop)) =
        (List.range (chunkCount file.length step)).map fun i ↦
          ⟨n, .ofNat (position file.length step worker i)⟩ := by
      rw [visits, List.map_map]
      rfl
    simp only [hvisits]
    exact hread.append hrest

theorem follows_readPasses {opened : List File} (hc : c.Fit files accesses plan)
    (hfiles : ∀ (i : Nat) (file : File), opened[i]? = some file →
      accesses[i]? = some (file.access, i) ∧ file.access.reader.source = file.source)
    (step worker passes : Nat) :
    Follows files c (route (opened.map File.length) step passes worker)
      (readPasses opened step worker passes) := by
  induction passes with
  | zero => exact follows_nil
  | succ passes ih =>
    rw [route, List.replicate_succ, List.flatten_cons]
    exact (follows_readFiles (n := 0) hc hfiles step worker).append ih

theorem succeeded_of_readAll {opened : List File} {step passes n k : Nat} {done : List Worker}
    {st st' : Workspace} (hc : c.Fit files accesses plan)
    (hfiles : ∀ (i : Nat) (file : File), opened[i]? = some file →
      accesses[i]? = some (file.access, i) ∧ file.access.reader.source = file.source)
    (h : c.Rests files d st) (hk : done.length = k) (hdone : ∀ w ∈ done, w.Succeeded)
    (hworkers : d.workers = done ++ (List.range' k n).map fun worker ↦
      { rest := route (opened.map File.length) step passes worker })
    (hr : readAll opened step passes k n st = (.ok (), st')) :
    ∃ d', c.Rests files d' st' ∧ ∀ w ∈ d'.workers, w.Succeeded := by
  -- One worker goes all its way, while those before it have succeeded and the others are to begin.
  induction n generalizing k done d st with
  | zero =>
    cases hr
    refine ⟨d, h, ?_⟩
    simpa [hworkers] using hdone
  | succ n ih =>
    obtain ⟨⟨⟩, st₁, hfirst, hrest⟩ := Work.bind_ok hr
    let stops := route (opened.map File.length) step passes k
    rw [List.range'_succ, List.map_cons] at hworkers
    have hw : d.workers[k]? = some ⟨[], stops ++ [], .ready⟩ := by
      rw [hworkers, ← hk, List.getElem?_append_right (Nat.le_refl _), Nat.sub_self,
        List.append_nil, hk]
      rfl
    obtain ⟨d₁, hrests, hset⟩ :=
      follows_readPasses hc hfiles step k passes d st st₁ k [] [] h hw hfirst
    have hdone' (w : Worker) (hm : w ∈ done ++ [⟨stops, [], .ready⟩]) : w.Succeeded := by
      rcases List.mem_append.1 hm with hm | hm
      · exact hdone w hm
      · rw [List.mem_singleton.1 hm]
        exact ⟨rfl, rfl⟩
    have hworkers' : d₁.workers = (done ++ [⟨stops, [], .ready⟩]) ++
        (List.range' (k + 1) n).map fun worker ↦
          { rest := route (opened.map File.length) step passes worker } := by
      rw [hset, hworkers, ← hk]
      simp [stops, hk]
    exact ih hrests (by simp [hk]) hdone' hworkers' hrest

variable {Name : Type} [FileName Name] {o : Options Name}
variable {openSource : Name → Except Error ByteSource} {data : Name → ByteArray}
variable {elapsedMs : Nat} {report : Report}

theorem run_ok (h : run o openSource elapsedMs = .ok report) :
    ∃ cache store opened e tally, Cache.build o.config [] = .ok cache ∧
      Store.create? cache.settings ChunkId.hash = some store ∧
      o.files.mapM (fun name ↦ openFile cache o.chunkSize name (openSource name)) = .ok opened ∧
      readAll opened o.chunkSize.toNat o.passes.toNat 0 o.threads.toNat
        ({ store, memory := {} }, {}) = (.ok (), e, tally) ∧
      report =
        { files := o.files.length
          threads := o.threads.toNat
          passes := o.passes.toNat
          cacheEnabled := cache.isEnabled
          chunksRead := tally.chunks
          bytesRead := tally.bytes
          elapsedMs
          cache := e.store.report
          poolAcquired := e.invalidateAll.2.memory.pool.acquired
          poolReleased := e.invalidateAll.2.memory.pool.released
          poolOutstanding := e.invalidateAll.2.memory.pool.outstanding } := by
  by_cases hthreads : o.threads = 0
  · simp [run, hthreads, bind, Except.bind, throw, throwThe, MonadExceptOf.throw] at h
  cases hb : Cache.build o.config [] with
  | error e => simp [run, hthreads, hb, Except.mapError, bind, Except.bind] at h
  | ok cache =>
    cases hs : Store.create? cache.settings ChunkId.hash with
    | none => simp [run, hthreads, hb, hs, Except.mapError, bind, Except.bind, throw, throwThe,
        MonadExceptOf.throw] at h
    | some store =>
      cases hfiles : o.files.mapM fun name ↦ openFile cache o.chunkSize name (openSource name) with
      | error f => simp [run, hthreads, hb, hs, hfiles, Except.mapError, bind, Except.bind] at h
      | ok opened =>
        rcases hr : readAll opened o.chunkSize.toNat o.passes.toNat 0 o.threads.toNat
          ({ store, memory := {} }, {}) with ⟨failure | ⟨⟩, e, tally⟩
        · simp [run, hthreads, hb, hs, hfiles, hr, Except.mapError, bind, Except.bind] at h
        · simp only [run, hthreads, if_false, hb, hs, hfiles, hr, Except.mapError, bind,
            Except.bind, pure, Except.pure, Except.ok.injEq] at h
          exact ⟨cache, store, opened, e, tally, rfl, hs, hfiles, hr, h.symm⟩

theorem eviction_of_build {config : Config} {watchers : List String} {cache : Cache}
    (h : Cache.build config watchers = .ok cache) :
    cache.settings.eviction.validate = .ok () := by
  simp only [Cache.build] at h
  split at h
  · cases h
  · rename_i hvalid
    cases h
    simp only [Config.validate] at hvalid
    split at hvalid
    · cases hvalid
    · split at hvalid
      · cases hvalid
      · split at hvalid
        · cases hvalid
        · exact hvalid

theorem readers_accessesTo (opened : List File) :
    (accessesTo opened).map (·.1.reader) = opened.map (·.access.reader) := by
  calc (accessesTo opened).map (·.1.reader)
      = (((opened.map File.access).zipIdx).map Prod.fst).map Access.reader := List.map_map.symm
    _ = opened.map (·.access.reader) := by
      rw [List.zipIdx_map_fst, List.map_map]
      rfl

/-- A scan that succeeds is what a crew comes to whose workers go one after the other. -/
theorem exists_crew_of_run (hf : Finds openSource data) (hd : Discernible o.files data)
    (h : run o openSource elapsedMs = .ok report) :
    ∃ c d, Crew.start o ChunkId.hash .asListed openSource = .ok c ∧
      c.Reaches (images o.files data o.chunkSize) d ∧ (∀ w ∈ d.workers, w.Succeeded) ∧
      report = d.report o elapsedMs := by
  obtain ⟨cache, store, opened, e, tally, hb, hstore, hfiles, hr, rfl⟩ := run_ok h
  have hopened := opened_of_mapM hf hd hfiles
  have hlisted : { cache.settings with ties := .asListed } = cache.settings := rfl
  have hopen : Session.open? cache ChunkId.hash =
      some { cache, traffic := { shared := { engine := { store, memory := {} } } } } := by
    simp only [Session.open?, Traffic.create?, hlisted, hstore, Option.map_some]
  let c : Crew :=
    { session :=
        { cache
          traffic :=
            { shared :=
                { engine := { store, memory := {} }
                  readers := opened.map (·.access.reader) } }
          accesses := accessesTo opened }
      workers := (List.range o.threads.toNat).map fun worker ↦
        { rest := route (opened.map File.length) o.chunkSize.toNat o.passes.toNat worker } }
  have hstart : Crew.start o ChunkId.hash .asListed openSource = .ok c := by
    simp only [Crew.start, hb, hopen, hfiles, Except.mapError, bind, Except.bind, pure, Except.pure]
    rfl
  have hsound : c.Sound (images o.files data o.chunkSize) (accessesTo opened) ((List.range
      o.threads.toNat).map (route (opened.map File.length) o.chunkSize.toNat o.passes.toNat)) := by
    have hroutes := Crew.sound_of_opened hb hopen hopened ((List.range o.threads.toNat).map
      (route (opened.map File.length) o.chunkSize.toNat o.passes.toNat))
    rwa [List.map_map] at hroutes
  have hvalid : store.settings.eviction.validate = .ok () := by
    rw [Store.create?_eq hstore]
    exact eviction_of_build hb
  have hfit : c.Fit (images o.files data o.chunkSize) (accessesTo opened) _ :=
    ⟨hsound, (readers_accessesTo opened).symm, Store.batchSize_of_validate hvalid⟩
  have hgranted (i : Nat) (file : File) (hi : opened[i]? = some file) :
      (accessesTo opened)[i]? = some (file.access, i) ∧
        file.access.reader.source = file.source := by
    obtain ⟨name, hname⟩ := exists_opened hopened (List.mem_of_getElem? hi)
    exact ⟨accessesTo_get?.2 ⟨file, hi, rfl⟩, hname.source⟩
  have hrests : c.Rests (images o.files data o.chunkSize) c ({ store, memory := {} }, {}) :=
    ⟨.refl, rfl, rfl, rfl, rfl, rfl, rfl⟩
  have hworkers : c.workers = [] ++ (List.range' 0 o.threads.toNat).map fun worker ↦
      { rest := route (opened.map File.length) o.chunkSize.toNat o.passes.toNat worker } := by
    rw [List.nil_append, ← List.range_eq_range']
  obtain ⟨d, hend, hdone⟩ :=
    succeeded_of_readAll hfit hgranted hrests rfl (by simp) hworkers hr
  refine ⟨c, d, hstart, hend.reaches, hdone, ?_⟩
  simp only [Crew.report, hend.engine, hend.tally, hend.cache, c]

end Scan
end ReadCache
