import ReadCache.Proofs.Steps

namespace ReadCache

/-- The references to all chunks, what the pool gave out and took back, and the log of what it took
back, held against one another. -/
structure Memory.Ledger (m : Memory) (refs : List ChunkRef) (log : List (Option ChunkRef))
    (loose : Nat) : Prop where
  counts : m.Counts refs
  balanced : m.Balanced loose
  released : m.pool.released = log.length
  known : ∀ c, some c ∈ log → c < m.chunks.size
  logged : ∀ c < m.chunks.size, log.count (some c) = if c ∈ refs then 0 else 1

namespace Memory.Ledger
variable {m : Memory} {c : ChunkRef} {refs refs' : List ChunkRef} {log : List (Option ChunkRef)}
variable {loose : Nat}

theorem perm (h : m.Ledger refs log loose) (hp : refs.Perm refs') : m.Ledger refs' log loose where
  counts := h.counts.perm hp
  balanced := h.balanced
  released := h.released
  known := h.known
  logged c hc := by simp only [h.logged c hc, hp.mem_iff]

theorem unreference (h : m.Ledger (c :: refs) log loose) :
    (m.unreference c).Ledger refs (if m.frees c then some c :: log else log) loose := by
  obtain ⟨chunk, hc⟩ := exists_chunk (h.counts.known c (by simp))
  refine ⟨h.counts.unreference, h.balanced.unreference c, ?_, fun c' hc' ↦ ?_, fun c' hc' ↦ ?_⟩
  · rw [(released_unreference m c).1, h.released]
    cases m.frees c <;> simp
  · rw [size_unreference]
    by_cases hf : m.frees c
    · simp only [hf, if_true, List.mem_cons, Option.some.injEq] at hc'
      rcases hc' with rfl | hc'
      · exact lt_of_chunk? hc
      · exact h.known c' hc'
    · exact h.known c' (by simpa [hf] using hc')
  · rw [size_unreference] at hc'
    have hl := h.logged c' hc'
    have hf := h.counts.frees_iff
    by_cases he : c' = c
    · subst he
      by_cases hm : c' ∈ refs
      · simp_all
      · simp_all
    · have hmem : c' ∈ c :: refs ↔ c' ∈ refs := by simp [he]
      simp only [hmem] at hl
      split
      · rw [List.count_cons_of_ne (by simpa using Ne.symm he), hl]
      · exact hl

theorem more (h : m.Ledger refs log loose) {m' : Memory} (hm : c ∈ refs)
    (hcounts : m'.Counts (c :: refs)) (hbalanced : m'.Balanced loose)
    (hpool : m'.pool = m.pool) (hsize : m'.chunks.size = m.chunks.size) :
    m'.Ledger (c :: refs) log loose := by
  refine ⟨hcounts, hbalanced, by rw [hpool]; exact h.released, fun c' hc' ↦ ?_, fun c' hc' ↦ ?_⟩
  · rw [hsize]
    exact h.known c' hc'
  · rw [hsize] at hc'
    have hmem : c' ∈ c :: refs ↔ c' ∈ refs := by
      constructor
      · intro hc
        rcases List.mem_cons.1 hc with rfl | hc
        · exact hm
        · exact hc
      · exact List.mem_cons_of_mem c
    simp only [h.logged c' hc', hmem]

theorem share (h : m.Ledger refs log loose) (hm : c ∈ refs) (hn : refs.count c + 1 < UInt32.size) :
    (m.share c).Ledger (c :: refs) log loose := by
  obtain ⟨chunk, hc⟩ := exists_chunk (h.counts.known c hm)
  refine h.more hm (h.counts.share hm hn) (h.balanced.share c) ?_ ?_
  · simp [Memory.share, hc, setChunk]
  · simp [Memory.share, hc, setChunk]

theorem reference (h : m.Ledger refs log loose) (hr : (m.reference c).1 = .ok true) :
    (m.reference c).2.Ledger (c :: refs) log loose := by
  obtain ⟨hm, hcounts⟩ := h.counts.reference hr
  rcases reference_cases m c with ⟨chunk, hc, -, -, he⟩ | ⟨hne, -⟩
  · refine h.more hm hcounts (h.balanced.reference c) ?_ ?_ <;> rw [he] <;> simp [setChunk]
  · exact absurd hr hne

theorem adopt (h : m.Ledger refs log (loose + 1)) (b : Block) (offset : UInt64) :
    (m.adopt b offset).2.Ledger (m.chunks.size :: refs) log loose := by
  refine ⟨h.counts.adopt b offset, h.balanced.adopt b offset, h.released, fun c' hc' ↦ ?_,
    fun c' hc' ↦ ?_⟩
  · simpa [Memory.adopt] using Nat.lt_succ_of_lt (h.known c' hc')
  · by_cases he : c' = m.chunks.size
    · subst he
      have hnot : some m.chunks.size ∉ log := fun hm ↦ Nat.lt_irrefl _ (h.known _ hm)
      simp [List.count_eq_zero.2 hnot]
    · have hlt : c' < m.chunks.size := by
        simp only [Memory.adopt, Array.size_push] at hc'
        omega
      simp [h.logged c' hlt, he]

theorem of_acquire (h : m.Ledger refs log loose) (size : UInt64) (kind : BufferKind) :
    (∃ b, (m.acquire size kind).1 = .ok b ∧
      (m.acquire size kind).2.Ledger refs log (loose + 1)) ∨
    (∃ f, (m.acquire size kind).1 = .error f ∧ (m.acquire size kind).2.Ledger refs log loose) := by
  have hb := h.balanced
  simp only [Balanced, alive] at hb
  have keep (pool : Pool) (n : Nat) (hr : pool.released = m.pool.released)
      (ha : pool.acquired = m.pool.released + n + m.chunks.countP (·.block.isSome)) :
      Memory.Ledger { m with pool } refs log n :=
    ⟨h.counts.of_chunks rfl, by simp only [Balanced, alive]; omega, hr.trans h.released, h.known,
      h.logged⟩
  simp only [Memory.acquire, Pool.acquire]
  split
  · exact .inr ⟨_, rfl, keep _ _ rfl hb⟩
  · split
    · exact .inl ⟨_, rfl, keep _ _ rfl (by dsimp only; omega)⟩
    · exact .inr ⟨_, rfl, keep _ _ rfl hb⟩

theorem giveBack (h : m.Ledger refs log (loose + 1)) (b : Block) :
    (m.giveBack b).Ledger refs (none :: log) loose := by
  refine ⟨h.counts.of_chunks rfl, h.balanced.giveBack b, ?_, fun c hc ↦ ?_, fun c hc ↦ ?_⟩
  · rw [(released_giveBack m b).1, h.released, List.length_cons]
  · exact h.known c (by simpa using hc)
  · simpa using h.logged c hc

end Memory.Ledger

def Store.chunks (s : Store) : List ChunkRef := s.entries.map Entry.chunk

/-- The references that a pass has taken out of the table and not yet given up. -/
def Pass.held : Pass → List ChunkRef
  | discount r _ => [r.chunk]
  | retire chunk _ => [chunk]
  | _ => []

def Stage.held : Stage → List ChunkRef
  | settle _ chunk _ | publish _ chunk false | replace chunk => [chunk]
  | evict _ p => p.held
  | _ => []

def Removal.held : Removal → List ChunkRef
  | discount r => [r.chunk]
  | retire chunk => [chunk]
  | _ => []

def Sweep.held : Sweep → List ChunkRef
  | clear _ out => out.map Resident.chunk
  | discount _ rest out => (rest ++ out).map Resident.chunk
  | retire rest _ => rest.map Resident.chunk
  | ended _ => []

/-- The references that a call owes to the table's exit. -/
def Call.held : Call → List ChunkRef
  | get _ _ _ stage => stage.held
  | direct .. => []
  | invalidate _ stage => stage.held
  | sweep _ stage => stage.held
  | evict p => p.held

def Stage.loose : Stage → Nat
  | read .. => 1
  | _ => 0

def Direct.loose : Direct → Nat
  | read _ => 1
  | _ => 0

def Call.loose : Call → Nat
  | get _ _ _ stage => stage.loose
  | direct _ _ _ stage => stage.loose
  | _ => 0

def Shared.refs (s : Shared) (held : List ChunkRef) : List ChunkRef :=
  s.store.chunks ++ held ++ s.handles.map Handle.chunk

structure Shared.Accounted (s : Shared) (held : List ChunkRef) (loose : Nat) : Prop where
  proper : s.store.slots.Proper
  owners : (s.store.chunks ++ held).Nodup
  ledger : s.memory.Ledger (s.refs held) s.returned loose

namespace Shared.Accounted
variable {s : Shared} {held held' : List ChunkRef} {loose : Nat}

theorem perm (h : s.Accounted held loose) (hp : held.Perm held') : s.Accounted held' loose where
  proper := h.proper
  owners := (hp.append_left _).nodup_iff.1 h.owners
  ledger := h.ledger.perm ((hp.append_left _).append_right _)

theorem onStore (h : s.Accounted held loose) {f : Store → Store}
    (hp : (f s.store).slots.Proper)
    (hc : (s.store.chunks ++ held).Perm ((f s.store).chunks ++ held')) :
    (s.onStore f).Accounted held' loose where
  proper := hp
  owners := hc.nodup_iff.1 h.owners
  ledger := h.ledger.perm (hc.append_right _)

theorem retire {c : ChunkRef} (h : s.Accounted (c :: held) loose) (cause : RemovalCause) :
    (s.retire c cause).Accounted held loose where
  proper := h.proper
  owners := (List.nodup_cons.1 (List.perm_middle.nodup_iff.1 h.owners)).2
  ledger := by
    have hp : (s.refs (c :: held)).Perm (c :: s.refs held) := by simp [refs]
    exact (h.ledger.perm hp).unreference

theorem detach (h : s.Accounted held loose) {k : ChunkId} {r : Resident}
    (hr : s.store.slots.get? k = some (.resident r)) :
    (s.onStore fun _ ↦ (s.store.detach k).2).Accounted (r.chunk :: held) loose := by
  have he := (Store.entries_detach h.proper hr).map Entry.chunk
  exact h.onStore (Store.proper_detach h.proper k) ((he.append_right held).trans List.perm_middle.symm)

theorem keep (h : s.Accounted held loose) {f : Store → Store}
    (hp : (f s.store).slots.Proper) (he : (f s.store).entries = s.store.entries) :
    (s.onStore f).Accounted held loose :=
  h.onStore hp (by simp only [Store.chunks, he]; exact .refl _)

theorem acquire (h : s.Accounted held loose) {c : Conduct} {position : UInt64} {roundUp : Bool}
    {b : Block} (hb : (c.acquire position roundUp s).1 = .ok b) :
    (c.acquire position roundUp s).2.Accounted held (loose + 1) := by
  simp only [Conduct.acquire, Engine.acquireFor] at hb ⊢
  rcases hsize : c.reader.loadSize? position roundUp with _ | size <;> simp only [hsize] at hb ⊢
  · cases hb
  · rcases h.ledger.of_acquire size c.reader.bufferKind with ⟨b', -, hl⟩ | ⟨f, hf, -⟩
    · exact ⟨h.proper, h.owners, hl⟩
    · rw [hf] at hb
      cases hb

theorem refuse (h : s.Accounted held loose) {c : Conduct} {position : UInt64} {roundUp : Bool}
    {f : Failure} (hf : (c.acquire position roundUp s).1 = .error f) :
    (c.acquire position roundUp s).2.Accounted held loose := by
  simp only [Conduct.acquire, Engine.acquireFor] at hf ⊢
  rcases hsize : c.reader.loadSize? position roundUp with _ | size <;> simp only [hsize] at hf ⊢
  · exact h
  · rcases h.ledger.of_acquire size c.reader.bufferKind with ⟨b, hb, -⟩ | ⟨f', -, hl⟩
    · rw [hb] at hf
      cases hf
    · exact ⟨h.proper, h.owners, hl⟩

theorem giveBack (h : s.Accounted held (loose + 1)) (b : Block) :
    Shared.Accounted { s.onMemory (·.giveBack b) with returned := none :: s.returned } held loose :=
  ⟨h.proper, h.owners, h.ledger.giveBack b⟩

theorem arrive (h : s.Accounted held (loose + 1)) (k : ChunkId) (b : Block) :
    (s.withEngine (s.engine.arrive k b).2).Accounted (s.memory.chunks.size :: held) loose := by
  have hl := h.ledger.adopt b k.position
  have hp : (s.memory.chunks.size :: s.refs held).Perm
      (s.refs (s.memory.chunks.size :: held)) := by
    simp only [refs, List.append_assoc, List.cons_append]
    exact List.perm_middle.symm
  refine ⟨h.proper, List.perm_middle.nodup_iff.2 (List.nodup_cons.2 ⟨fun hm ↦ ?_, h.owners⟩),
    hl.perm hp⟩
  exact Nat.lt_irrefl _ (h.ledger.counts.known _ (List.mem_append_left _ hm))

theorem addHandle {before : Nat} (h : s.Accounted held before) {m : Memory} {handle : Handle}
    (hl : m.Ledger (handle.chunk :: s.refs held) s.returned loose) :
    ((s.onMemory fun _ ↦ m).addHandle handle).Accounted held loose := by
  refine ⟨h.proper, h.owners, hl.perm ?_⟩
  simp only [refs, Shared.addHandle, List.map_append, List.map_cons, List.map_nil]
  exact (List.perm_append_singleton _ _).symm.trans (by rw [List.append_assoc]; exact .refl _)

theorem dropHandle (h : s.Accounted held loose) {i : Nat} {handle : Handle}
    (hi : s.handles[i]? = some handle) :
    Shared.Accounted { s.unreference handle.chunk with handles := s.handles.eraseIdx i }
      held loose := by
  obtain ⟨hlt, rfl⟩ := List.getElem?_eq_some_iff.1 hi
  have hp : s.handles.Perm (s.handles[i] :: s.handles.eraseIdx i) :=
    (List.getElem_cons_eraseIdx_perm hlt).symm
  have hrefs : (s.refs held).Perm
      (s.handles[i].chunk ::
        (s.store.chunks ++ held ++ (s.handles.eraseIdx i).map Handle.chunk)) :=
    ((hp.map Handle.chunk).append_left _).trans List.perm_middle
  exact ⟨h.proper, h.owners, (h.ledger.perm hrefs).unreference⟩

end Shared.Accounted

section
variable {s s' : Shared} {rest : List ChunkRef} {loose : Nat}

theorem Pass.step_accounted {p p' : Pass} (h : s.Accounted (p.held ++ rest) loose)
    (hs : p.step s = some (p', s')) : s'.Accounted (p'.held ++ rest) loose := by
  cases steps hs with
  | take hr => exact h.detach hr
  | discount => exact h.keep h.proper rfl
  | retire => exact h.retire .size
  | _ => exact ⟨h.proper, h.owners, h.ledger⟩

theorem Removal.step_accounted {k : ChunkId} {x x' : Removal}
    (h : s.Accounted (x.held ++ rest) loose) (hs : x.step k s = some (x', s')) :
    s'.Accounted (x'.held ++ rest) loose := by
  cases steps hs with
  | take hr => exact h.detach hr
  | clear hn =>
    exact h.keep (Store.proper_detach h.proper k)
      (Store.entries_detach_of_not_resident h.proper hn)
  | discount => exact h.keep h.proper rfl
  | retire => exact h.retire .explicit

theorem Sweep.step_accounted {matches? : ChunkId → Bool} {x x' : Sweep}
    (h : s.Accounted (x.held ++ rest) loose) (hs : x.step matches? s = some (x', s')) :
    s'.Accounted (x'.held ++ rest) loose := by
  cases steps hs with
  | @clear shard out hi =>
    have he := (Store.entries_detachMatching s.store hi matches?).map Entry.chunk
    refine h.onStore (Store.proper_detachMatching h.proper _ _) ?_
    have hout : ((s.store.matching shard matches?).map (fun b ↦ b.2.entry b.1)).map Entry.chunk =
        (s.store.detachMatching shard matches?).1.map Resident.chunk := by
      simp [Store.matching, Store.detachMatching, Resident.entry]
    rw [List.map_append, hout] at he
    simp only [Sweep.held, Store.chunks, List.map_append] at he ⊢
    grind
  | discount =>
    refine Shared.Accounted.keep (h.perm ?_) h.proper rfl
    simp only [held, List.map_append, List.map_cons, List.map_nil]
    grind
  | retire => exact h.retire .explicit
  | through | next | leave => exact h

theorem Stage.step_accounted {k : ChunkId} {c : Conduct} {x x' : Stage}
    (h : s.Accounted (x.held ++ rest) (loose + x.loose)) (hs : x.step k c s = some (x', s')) :
    s'.Accounted (x'.held ++ rest) (loose + x'.loose) := by
  cases steps hs with
  | hit hr | hitLate hr =>
    exact h.keep (Store.proper_touch h.proper _) (Store.entries_touch h.proper hr)
  | join | joinLate => exact h.keep h.proper rfl
  | begin => exact h.keep (Store.proper_claim h.proper k) (Store.entries_claim h.proper k)
  | borrow hb => exact h.acquire hb
  | refuse hf => exact h.refuse hf
  | arrive => exact h.arrive k _
  | fail => exact h.giveBack _
  | @settle t chunk weight ho =>
    have he := (Store.entries_settle h.proper (c := chunk) (w := weight) ho).map Entry.chunk
    refine h.onStore (Store.proper_settle h.proper t chunk weight) ?_
    simp only [Store.chunks, held, List.map_cons] at he ⊢
    grind
  | publish | withhold | announce => exact h.keep h.proper rfl
  | replace => exact h.retire .replaced
  | pass hq => exact Pass.step_accounted h hq
  | @clear t f => exact h.keep (f.proper_clearLoad h.proper t) (f.entries_clearLoad h.proper t)
  | miss | receive | receiveError | lose | leave => exact h

theorem Direct.step_accounted {asked k : ChunkId} {c : Conduct} {x x' : Direct}
    (h : s.Accounted rest (loose + x.loose)) (hs : x.step asked k c s = some (x', s')) :
    s'.Accounted rest (loose + x'.loose) := by
  cases steps hs with
  | borrow hb => exact h.acquire hb
  | refuse hf => exact h.refuse hf
  | arrive => exact h.addHandle (h.ledger.adopt _ k.position)
  | fail => exact h.giveBack _

theorem Call.step_accounted {c : Conduct} {x x' : Call}
    (h : s.Accounted (x.held ++ rest) (loose + x.loose)) (hs : x.step c s = some (x', s')) :
    s'.Accounted (x'.held ++ rest) (loose + x'.loose) := by
  cases steps hs with
  | stage hq => exact Stage.step_accounted h hq
  | take hr => exact Shared.Accounted.addHandle h (h.ledger.reference hr)
  | direct hq => exact Direct.step_accounted h hq
  | invalidate hq => exact Removal.step_accounted h hq
  | sweep hq => exact Sweep.step_accounted h hq
  | evict hq => exact Pass.step_accounted h hq
  | retry | exhaust | overflow => exact h

end

namespace Traffic
variable {t u : Traffic}

def held (t : Traffic) : List ChunkRef := t.calls.flatMap Call.held

def loose (t : Traffic) : Nat := (t.calls.map Call.loose).sum

def Accounted (t : Traffic) : Prop := t.shared.Accounted t.held t.loose

theorem accounted_of_initial (h : t.Initial) : t.Accounted := by
  obtain ⟨settings, hash, hstore⟩ := h.store
  have hentries : t.shared.store.chunks = [] := by
    simp [Store.chunks, Store.entries, Store.residents_create? hstore]
  have hrefs : t.shared.refs t.held = [] := by
    simp [Shared.refs, hentries, held, h.calls, h.handles]
  have hnone (c : ChunkRef) : t.shared.memory.chunk? c = none := by
    simp [Memory.chunk?, h.chunks]
  refine ⟨Store.proper_create? hstore, by simp [hentries, held, h.calls], ?_⟩
  rw [hrefs]
  refine ⟨⟨by simp, fun c chunk hc ↦ ?_, fun c chunk hc ↦ ?_⟩, ?_, ?_, ?_, ?_⟩
  · rw [hnone c] at hc
    cases hc
  · rw [hnone c] at hc
    cases hc
  · simp [Memory.Balanced, Memory.alive, h.acquired, h.released, h.chunks, loose, h.calls]
  · simp [h.released, h.returned]
  · simp [h.returned]
  · simp [h.chunks]

theorem start_accounted (h : t.Accounted) (c : Start) :
    Accounted { t with calls := t.calls ++ [c.call] } := by
  have hheld : c.call.held = [] := by
    cases c with
    | rebuffer a reader position =>
      simp only [Start.call, Call.rebuffer]
      split
      · simp only [Call.held]
        split <;> rfl
      · rfl
    | _ => rfl
  have hloose : c.call.loose = 0 := by
    cases c with
    | rebuffer a reader position =>
      simp only [Start.call, Call.rebuffer]
      split
      · simp only [Call.loose]
        split <;> rfl
      · rfl
    | _ => rfl
  simpa [Accounted, held, loose, hheld, hloose] using h

theorem advance_accounted {i : Nat} {conduct : Conduct} (h : t.Accounted)
    (hs : t.step (.advance i conduct) = some u) : u.Accounted := by
  obtain ⟨c, c', s, hi, hstep, rfl⟩ := advance_cases hs
  obtain ⟨others, hold, hnew⟩ := calls_split hi
  -- What the other calls hold and have out is carried along.
  have hbefore : t.shared.Accounted (c.held ++ others.flatMap Call.held)
      ((others.map Call.loose).sum + c.loose) := by
    have hp := Shared.Accounted.perm h (hold.flatMap_right Call.held)
    have hsum := (hold.map Call.loose).sum_nat
    rw [List.map_cons, List.sum_cons, Nat.add_comm] at hsum
    rw [← hsum]
    exact hp
  have hafter := Call.step_accounted hbefore hstep
  have hsum := ((hnew c').map Call.loose).sum_nat
  rw [List.map_cons, List.sum_cons, Nat.add_comm] at hsum
  rw [← hsum] at hafter
  exact hafter.perm ((hnew c').flatMap_right Call.held).symm

/-- Only a handle that is shared can be one too many. -/
theorem step_accounted_unshared {m : Move} (h : t.Accounted) (hs : t.step m = some u)
    (hm : ∀ i, m ≠ .share i) : u.Accounted := by
  cases steps hs with
  | start c => exact start_accounted h c
  | advance => exact advance_accounted h hs
  | reference hr => exact Shared.Accounted.addHandle h (h.ledger.reference hr)
  | @share i => exact absurd rfl (hm i)
  | release hi => exact Shared.Accounted.dropHandle h hi
  | refuse => exact h
  | closeReader | resetCounters => exact ⟨h.proper, h.owners, h.ledger⟩

theorem step_accounted {m : Move} (h : t.Accounted) (hs : t.step m = some u) (hu : u.Modest) :
    u.Accounted := by
  cases steps hs with
  | @share i handle hi =>
    have hmem : handle.chunk ∈ t.shared.handles.map Handle.chunk :=
      List.mem_map_of_mem (List.mem_of_getElem? hi)
    have hone := List.nodup_iff_count.1 h.owners handle.chunk
    -- The table and the calls hold one reference at most, so there is room for one handle more.
    have hbound := hu handle.chunk
    simp only [onShared, Shared.addHandle, List.map_append, List.count_append, List.map_cons,
      List.map_nil, List.count_singleton_self] at hbound
    refine Shared.Accounted.addHandle h (h.ledger.share (List.mem_append_right _ hmem) ?_)
    simp only [Shared.refs, List.count_append] at hone ⊢
    have hsame : (t.shared.onMemory (·.share handle.chunk)).handles = t.shared.handles := rfl
    rw [hsame] at hbound
    omega
  | _ => exact step_accounted_unshared h hs (by simp)

theorem accounted_of_reaches (h : t.Accounted) (hr : t.Reaches Modest u) : u.Accounted := by
  induction hr with
  | refl => exact h
  | step m _ hs hu ih => exact step_accounted ih hs hu

/-- The reference that the chunk began with is still to be given up, by way of the table or of a
call that took the chunk out of it or never put it in. -/
def Owed (t : Traffic) (c : ChunkRef) : Prop := c ∈ t.shared.store.chunks ∨ c ∈ t.held

instance (t : Traffic) (c : ChunkRef) : Decidable (t.Owed c) := by
  unfold Owed
  infer_instance

def handlesOn (t : Traffic) (c : ChunkRef) : Nat :=
  (t.shared.handles.map Handle.chunk).count c

theorem count_refs (h : t.Accounted) (c : ChunkRef) :
    (t.shared.refs t.held).count c = (if t.Owed c then 1 else 0) + t.handlesOn c := by
  have howners : (t.shared.store.chunks ++ t.held).count c = if t.Owed c then 1 else 0 := by
    rw [h.owners.count]
    simp only [List.mem_append, Owed]
  rw [Shared.refs, List.count_append, howners, handlesOn]

/-- Whatever the order of the steps, the references to a chunk are the one it began with, as long as
that is owed, and those of the handles on it. The block of a chunk comes back when they are gone,
and once only, and every block that went out of the pool is with a read, with a chunk, or back. -/
theorem references_conserved (ht : t.Initial) (h : t.Reaches Modest u) :
    (∀ c chunk, u.shared.memory.chunk? c = some chunk →
      chunk.references.toNat = (if u.Owed c then 1 else 0) + u.handlesOn c ∧
      (chunk.block.isSome ↔ chunk.references ≠ 0) ∧
      u.shared.returned.count (some c) = if chunk.references = 0 then 1 else 0) ∧
    u.shared.memory.pool.released = u.shared.returned.length ∧
    u.shared.memory.pool.acquired =
      u.shared.memory.pool.released + u.loose + u.shared.memory.alive := by
  have ha := accounted_of_reaches (accounted_of_initial ht) h
  refine ⟨fun c chunk hc ↦ ?_, ha.ledger.released, ha.ledger.balanced⟩
  have hcount := ha.ledger.counts.count c chunk hc
  have hzero : chunk.references = 0 ↔ c ∉ u.shared.refs u.held := by
    rw [← List.count_eq_zero, ← hcount, ← UInt32.toNat_inj]
    rfl
  refine ⟨hcount.trans (count_refs ha c), ?_, ?_⟩
  · rw [ha.ledger.counts.kept c chunk hc, ne_eq, hzero, not_not]
  · rw [ha.ledger.logged c (Memory.lt_of_chunk? hc)]
    simp only [hzero, ite_not]

/-- A chunk that was invalidated while there is a handle on it, of which one was shared and one
given up since. -/
theorem references_conserved_past_invalidation :
    ∃ t u : Traffic, t.Initial ∧ t.Reaches Modest u ∧ ¬ u.Owed 0 ∧ u.handlesOn 0 = 1 ∧
      ∃ chunk, u.shared.memory.chunk? 0 = some chunk ∧
        chunk.references.toNat = (if u.Owed 0 then 1 else 0) + u.handlesOn 0 := by
  let moves : List Move := loadSmall 0 "a" 6 8 ++ .reference 0 ::
    alone 1 (.invalidate ((smallFile "a" 6).chunkId 0)) (.ofReader (smallFile "a" 6) 0) 3 ++
    [.share 0, .release 0]
  have hend : ((create? tight ChunkId.hash).bind (·.run moves)).any fun u ↦
      ¬ u.Owed 0 ∧ u.handlesOn 0 = 1 ∧ 0 < u.shared.memory.chunks.size := by decide +kernel
  obtain ⟨u, hu, hprops⟩ := (Option.any_eq_true _ _).1 hend
  obtain ⟨t, ht, hrun⟩ := Option.bind_eq_some_iff.1 hu
  simp only [decide_eq_true_eq] at hprops
  obtain ⟨chunk, hc⟩ := Memory.exists_chunk hprops.2.2
  have hconserved := references_conserved (initial_of_create? ht) (reaches_of_run hrun)
  exact ⟨t, u, initial_of_create? ht, reaches_of_run hrun, hprops.1, hprops.2.1, chunk, hc,
    (hconserved.1 0 chunk hc).1⟩

end Traffic
end ReadCache
