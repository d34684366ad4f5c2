import ReadCache.Proofs.Origins
import ReadCache.Proofs.Transparency

namespace ReadCache

section
variable {s s' : Shared} {k : ChunkId} {conduct : Conduct}

theorem Shared.Drops.readers (hs : s.Drops s') : s'.readers = s.readers := by
  cases hs <;> rfl

theorem Conduct.readers_acquire (position : UInt64) (roundUp : Bool) :
    (conduct.acquire position roundUp s).2.readers = s.readers := by
  obtain ⟨m, he⟩ := conduct.acquire_eq position roundUp s
  rw [he]
  rfl

theorem Stage.step_readers {x x' : Stage} (hs : x.step k conduct s = some (x', s')) :
    s'.readers = s.readers := by
  cases steps hs with
  | borrow | refuse => exact conduct.readers_acquire _ _
  | pass hq => exact (Pass.step_drops hq).readers
  | _ => rfl

theorem Direct.step_readers {asked : ChunkId} {x x' : Direct}
    (hs : x.step asked k conduct s = some (x', s')) : s'.readers = s.readers := by
  cases steps hs with
  | borrow | refuse => exact conduct.readers_acquire _ _
  | arrive | fail => rfl

theorem Call.step_readers {x x' : Call} (hs : x.step conduct s = some (x', s')) :
    s'.readers = s.readers := by
  cases steps hs with
  | stage hq => exact Stage.step_readers hq
  | direct hq => exact Direct.step_readers hq
  | invalidate hq => exact (Removal.step_drops hq).readers
  | sweep hq => exact (Sweep.step_drops hq).readers
  | evict hq => exact (Pass.step_drops hq).readers
  | take | retry | exhaust | overflow => rfl

theorem Call.Goes.reads {x x' : Call} (h : Goes s x x' s') : x'.reads = x.reads := by
  cases h <;> rfl

/-- A call that brings a chunk has just read it, for its key, and the chunk has what was read. -/
theorem Call.step_brings {x x' : Call} (hp : s.store.slots.Proper)
    (hs : x.step conduct s = some (x', s'))
    (hsize : s'.memory.chunks.size = s.memory.chunks.size + 1) :
    ∃ j k b b', x.reads = some (j, k) ∧ x.key? = some k ∧ conduct.outcome b = (.ok (), b') ∧
      s'.memory.chunk? s.memory.chunks.size = some (.ofBlock b' k.position) := by
  have hnone {occupants : Store.Occupants} {results : Store.Results} {made : List Handle}
      {touched : List ChunkRef} (h : s.Turns s' occupants results 0 made touched) : False := by
    have hsame := h.size
    omega
  have hself (he : s' = s) : False := by
    rw [he] at hsize
    omega
  cases step_goes hp hs with
  | @stage k reader goal a a' _ h =>
    cases h with
    | hit _ _ h | join _ _ h | miss _ h | begin _ h | borrow h => exact (hnone h).elim
    | refuse h | fail h | settle _ h | publish h | replace h => exact (hnone h).elim
    | clear h | announce h => exact (hnone h).elim
    | pass h => exact (hnone h.frees).elim
    | receive | lose | leave => exact (hself rfl).elim
    | arrive =>
      cases steps hs with
      | stage hq =>
        cases Stage.steps hq with
        | arrive ho =>
          refine ⟨reader, k, _, _, rfl, rfl, ho, ?_⟩
          exact (Memory.chunk?_adopt _ _ _ _).trans (if_pos rfl)
  | take h => exact (hnone h).elim
  | retry | refuse => exact (hself rfl).elim
  | invalidate h | sweep h | evict h => exact (hnone h.frees).elim
  | @direct asked k reader a a' _ h =>
    cases h with
    | borrow h | refuse h | fail h => exact (hnone h).elim
    | arrive =>
      cases steps hs with
      | direct hq =>
        cases Direct.steps hq with
        | arrive ho =>
          refine ⟨reader, k, _, _, rfl, rfl, ho, ?_⟩
          exact (Memory.chunk?_adopt _ _ _ _).trans (if_pos rfl)

theorem Stage.step_spoils {x : Stage} {p : Ticket} {f : Failure}
    (hs : x.step k conduct s = some (.clear p f, s')) :
    (∃ b b', x = .read p b ∧ conduct.outcome b = (.error f, b')) ∨
      (x = .borrow p ∧ ∃ s', conduct.acquire k.position s.store.settings.roundUp s = (.error f, s')) := by
  cases steps hs with
  | refuse hf => exact .inr ⟨rfl, _, Prod.ext hf rfl⟩
  | fail hf => exact .inl ⟨_, _, rfl, hf⟩

theorem Direct.step_breaks {asked : ChunkId} {x : Direct} {f : Failure}
    (hs : x.step asked k conduct s = some (.ended (.error f), s')) :
    (∃ b b', x = .read b ∧ conduct.outcome b = (.error f, b')) ∨
      (x = .borrow ∧ ∃ s', conduct.acquire k.position false s = (.error f, s')) := by
  cases steps hs with
  | refuse hf => exact .inr ⟨rfl, _, Prod.ext hf rfl⟩
  | fail hf => exact .inl ⟨_, _, rfl, hf⟩

end

namespace Traffic
variable {t u v : Traffic} {log : List Tick} {m : Move}

theorem readers_of_step (hs : t.step m = some u) (j : Nat) :
    u.shared.readers[j]? = t.shared.readers[j]? ∨
      u.shared.readers[j]? = t.shared.readers[j]?.map Reader.close := by
  cases steps hs with
  | advance _ hstep => exact .inl (by rw [Call.step_readers hstep])
  | @closeReader i =>
    by_cases he : i = j
    · subst he
      exact .inr (List.getElem?_modify_eq _ _ _)
    · exact .inl (List.getElem?_modify_ne _ _ he)
  | _ => exact .inl rfl

theorem Records.readers (h : Records t log v) (j : Nat) :
    v.shared.readers[j]? = t.shared.readers[j]? ∨
      v.shared.readers[j]? = t.shared.readers[j]?.map Reader.close := by
  induction h with
  | nil => exact .inl rfl
  | snoc _ hs ih =>
    have hclosed (o : Option Reader) : (o.map Reader.close).map Reader.close = o.map Reader.close := by
      cases o <;> rfl
    rcases readers_of_step hs j with he | he <;> rcases ih with ih | ih <;> rw [he, ih]
    · exact .inl rfl
    · exact .inr rfl
    · exact .inr rfl
    · exact .inr (hclosed _)

theorem Records.closed {j : Nat} {r : Reader} (h : Records t log v)
    (hr : t.shared.readers[j]? = some r) (hclosed : r.closed = true) :
    ∃ r', v.shared.readers[j]? = some r' ∧ r'.closed = true := by
  rcases h.readers j with he | he <;> rw [he, hr]
  · exact ⟨r, rfl, hclosed⟩
  · exact ⟨r.close, rfl, rfl⟩

theorem Records.reads {i : Nat} {c : Call} (hp : t.shared.store.slots.Proper) (h : Records t log v)
    (hi : t.calls[i]? = some c) : ∃ d, v.calls[i]? = some d ∧ d.reads = c.reads := by
  refine h.invariant (P := fun _ v ↦ ∃ d, v.calls[i]? = some d ∧ d.reads = c.reads) hp
    ⟨c, hi, rfl⟩ ?_
  rintro log u m v hu ⟨d, hd, hreads⟩ hs
  rcases (step_goes hu hs).call hd with ⟨-, hd'⟩ | ⟨d', conduct, s, -, rfl, hgo, -⟩
  · exact ⟨d, hd', hreads⟩
  · exact ⟨d', List.getElem?_set_self (List.getElem?_eq_some_iff.1 hd).1, hgo.reads.trans hreads⟩

end Traffic

def Tick.requestAt (reader : Nat) (position : UInt64) (x : Tick) : Bool :=
  match x.move with
  | .start (.rebuffer _ j p) => j = reader && p = position
  | _ => false

theorem Tick.move_of_requestAt {reader : Nat} {position : UInt64} {x : Tick}
    (h : x.requestAt reader position = true) :
    ∃ a, x.move = .start (.rebuffer a reader position) := by
  unfold requestAt at h
  split at h
  · simp only [Bool.and_eq_true, decide_eq_true_eq] at h
    obtain ⟨rfl, rfl⟩ := h
    exact ⟨_, ‹_›⟩
  · cases h

/-- The readers that share a table, as they were opened, the cache that gave the accesses to them,
and how the file behind each may answer. -/
structure Readership where
  cache : Cache
  readers : List Reader
  answers : Nat → ByteSource → Prop

namespace Readership

/-- What these readers do: they ask through their accesses, and a call that goes on reads with its
reader as that is now. Anything else may be done besides. -/
def Allows (R : Readership) (x : Tick) : Prop :=
  match x.move with
  | .start (.rebuffer a j _) => ∃ r, R.readers[j]? = some r ∧ R.cache.wrap r = .ok a
  | .start (.get ..) => False
  | .advance i conduct => ∀ c j k, x.before.calls[i]? = some c → c.reads = some (j, k) →
    ∃ r source, x.before.shared.readers[j]? = some r ∧ R.answers j source ∧
      source.path = r.path ∧ conduct = .ofReader { r with source } k.position
  | _ => True

/-- Each reader asks through an access that the cache gave for it, and closing is all that ever
happens to it. -/
structure Runs (R : Readership) (t : Traffic) (log : List Tick) (v : Traffic) : Prop where
  initial : t.Initial
  readers : t.shared.readers = R.readers
  records : Traffic.Records t log v
  allowed : ∀ x ∈ log, R.Allows x

variable {R : Readership} {t u v : Traffic} {log : List Tick}

theorem Runs.before {n : Nat} {x : Tick} (h : R.Runs t log v) (hn : log[n]? = some x) :
    R.Runs t (log.take n) x.before :=
  ⟨h.initial, h.readers, (h.records.at hn).1, fun y hy ↦ h.allowed y (List.mem_of_mem_take hy)⟩

theorem Runs.proper (h : R.Runs t log v) : v.shared.store.slots.Proper :=
  h.records.proper h.initial.proper

theorem Runs.opens (h : R.Runs t log v) {i j : Nat} {c : Call} {k : ChunkId}
    (hi : v.calls[i]? = some c) (hc : c.reads = some (j, k)) : Opens R.readers j k.path k.kind := by
  obtain ⟨ht, -, hrec, hallowed⟩ := h
  induction hrec generalizing i c with
  | nil =>
    rw [ht.calls] at hi
    cases hi
  | @snoc log u v m hrec hs ih =>
    have hlast := hallowed _ (List.mem_append_right _ List.mem_cons_self)
    have hbefore {i : Nat} {c : Call} (hi : u.calls[i]? = some c) (hc : c.reads = some (j, k)) :
        Opens R.readers j k.path k.kind :=
      ih hi hc fun x hx ↦ hallowed x (List.mem_append_left _ hx)
    cases Traffic.step_goes (hrec.proper ht.proper) hs with
    | start start =>
      rcases getElem?_of_snoc hi with hi | ⟨-, rfl⟩
      · exact hbefore hi hc
      · cases start with
        | rebuffer a j' position =>
          obtain ⟨r, hr, ha⟩ := hlast
          obtain ⟨rfl, -⟩ := Session.reader_of_wrap ha
          have hreads : (Call.rebuffer a j' position).reads = some (j', a.chunkId position) := by
            unfold Call.rebuffer
            split <;> rfl
          cases hreads.symm.trans hc
          exact ⟨a.reader, hr, rfl, rfl⟩
        | get => exact hlast.elim
        | invalidate | sweep | evict => cases hc
    | advance hi' hgo =>
      rcases getElem?_of_set hi with ⟨rfl, rfl⟩ | ⟨-, hi⟩
      · exact hbefore hi' (hgo.reads ▸ hc)
      · exact hbefore hi hc
    | other => exact hbefore hi hc

theorem Runs.conduct (h : R.Runs t log v) {n i j : Nat} {x : Tick} {conduct : Conduct} {c : Call}
    {k : ChunkId} (hn : log[n]? = some x) (hm : x.move = .advance i conduct)
    (hi : x.before.calls[i]? = some c) (hc : c.reads = some (j, k)) :
    ∃ r now source, R.readers[j]? = some r ∧ r.path = k.path ∧ r.kind = k.kind ∧
      (now = r ∨ now = r.close) ∧ x.before.shared.readers[j]? = some now ∧ R.answers j source ∧
      source.path = now.path ∧ conduct = .ofReader { now with source } k.position := by
  have hbefore := h.before hn
  obtain ⟨r, hr, hpath, hkind⟩ := hbefore.opens hi hc
  have hallowed := h.allowed x (List.mem_of_getElem? hn)
  rw [Allows, hm] at hallowed
  obtain ⟨now, source, hnow, hanswers, hsame, hconduct⟩ := hallowed c j k hi hc
  refine ⟨r, now, source, hr, hpath, hkind, ?_, hnow, hanswers, hsame, hconduct⟩
  rcases hbefore.records.readers j with he | he <;> rw [hnow, h.readers, hr] at he
  · exact .inl (Option.some.inj he)
  · exact .inr (Option.some.inj he)

theorem Runs.advance (h : R.Runs t log v) {x : Tick} {i : Nat} (hx : x ∈ log)
    (hmover : x.mover? = some i) :
    ∃ conduct c c' s, x.move = .advance i conduct ∧ x.before.calls[i]? = some c ∧
      c.step conduct x.before.shared = some (c', s) ∧
      x.after = ⟨s, x.before.calls.set i c'⟩ ∧ x.came? = some c ∧ x.went? = some c' := by
  obtain ⟨n, hn⟩ := List.mem_iff_getElem?.1 hx
  obtain ⟨conduct, hm⟩ := Tick.move_of_mover hmover
  obtain ⟨-, hs, -⟩ := h.records.at hn
  rw [hm] at hs
  obtain ⟨c, c', s, hi, hstep, hafter⟩ := Traffic.advance_cases hs
  refine ⟨conduct, c, c', s, hm, hi, hstep, hafter, ?_, ?_⟩
  · rw [Tick.came?, hmover, Option.bind_some, hi]
  · rw [Tick.went?, hmover, Option.bind_some, hafter]
    exact List.getElem?_set_self (List.getElem?_eq_some_iff.1 hi).1

/-- What a chunk was loaded with: a read of a reader of its file and its kind, at its position. -/
theorem Runs.loaded (h : R.Runs t log v) {k : ChunkId} {c : ChunkRef} (hl : Loaded log k c) :
    ∃ j r source b b' chunk, R.readers[j]? = some r ∧ r.path = k.path ∧ r.kind = k.kind ∧
      R.answers j source ∧ Reader.readChunk { r with source } k.position b = (.ok (), b') ∧
      v.shared.memory.chunk? c = some chunk ∧ chunk.offset = k.position ∧
      ∀ b, chunk.block = some b → b = b' := by
  obtain ⟨x, hx, hbrings, hkey⟩ := hl
  obtain ⟨n, hn⟩ := List.mem_iff_getElem?.1 hx
  obtain ⟨hpast, hs, hrest⟩ := h.records.at hn
  have hp := hpast.proper h.initial.proper
  obtain ⟨d, hcame, hkey⟩ := Option.bind_eq_some_iff.1 hkey
  simp only [Tick.brings, Bool.and_eq_true, decide_eq_true_eq] at hbrings
  obtain ⟨rfl, hsize⟩ := hbrings
  obtain ⟨i, hmover⟩ : ∃ i, x.mover? = some i := by
    obtain ⟨i, hi, -⟩ := Option.bind_eq_some_iff.1 hcame
    exact ⟨i, hi⟩
  obtain ⟨conduct, d', e, s, hm, hi, hstep, hafter, hd, -⟩ := h.advance hx hmover
  obtain rfl : d = d' := Option.some.inj (hcame.symm.trans hd)
  rw [hafter] at hsize
  obtain ⟨j, k', b, b', hreads, hkey', ho, hchunk⟩ := Call.step_brings hp hstep hsize
  obtain rfl : k = k' := Option.some.inj (hkey.symm.trans hkey')
  obtain ⟨r, now, source, hr, hpath, hkind, hnow, -, hanswers, -, rfl⟩ :=
    h.conduct hn hm hi hreads
  have hgrown := (hrest.grows ((Traffic.step_goes hp hs).grows hp).proper).ages
  rw [hafter] at hgrown
  obtain ⟨chunk, hc, hage⟩ := hgrown _ _ hchunk
  have hread : Reader.readChunk { r with source } k.position b = (.ok (), b') := by
    rcases hnow with rfl | rfl
    · exact ho
    · -- a closed reader reads nothing
      change Reader.readChunk { r.close with source } k.position b = (.ok (), b') at ho
      simp only [Reader.readChunk, Reader.close] at ho
      split at ho
      · cases ho
      · cases ho
  exact ⟨j, r, source, b, b', chunk, hr, hpath, hkind, hanswers, hread, hc, hage.offset,
    fun b₁ hb ↦ (Option.some.inj (hage.block b₁ hb)).symm⟩

inductive Turn where
  | ask (reader : Nat) (position : UInt64)
  | advance (call : Nat)
  | close (reader : Nat)

def move? (R : Readership) (u : Traffic) : Turn → Option Move
  | .ask j position =>
    (R.readers[j]?).bind fun r ↦
      (R.cache.wrap r).toOption.map fun a ↦ .start (.rebuffer a j position)
  | .advance i =>
    (u.calls[i]?.bind Call.reads).bind fun call ↦
      u.shared.readers[call.1]?.map fun r ↦ .advance i (.ofReader r call.2.position)
  | .close j => some (.closeReader j)

def play (R : Readership) (u : Traffic) : List Turn → Option (List Tick × Traffic)
  | [] => some ([], u)
  | turn :: rest =>
    (R.move? u turn).bind fun m ↦ (u.step m).bind fun v ↦
      (R.play v rest).map fun r ↦ (⟨u, m, v⟩ :: r.1, r.2)

def open? (R : Readership) (hash : ChunkId → UInt64) : Option Traffic :=
  (Traffic.create? R.cache.settings hash).map fun t ↦
    t.onShared fun s ↦ { s with readers := R.readers }

theorem runs_of_open? {hash : ChunkId → UInt64} (h : R.open? hash = some t) : R.Runs t [] t := by
  obtain ⟨t₀, h₀, rfl⟩ := Option.map_eq_some_iff.1 h
  obtain ⟨hcalls, hhandles, hev, hg, hr, hc, ha, hrel, hstore⟩ := Traffic.initial_of_create? h₀
  exact ⟨⟨hcalls, hhandles, hev, hg, hr, hc, ha, hrel, hstore⟩, rfl, .nil, by simp⟩

theorem Runs.allows (h : R.Runs t log u)
    (hown : ∀ j r, R.readers[j]? = some r → R.answers j r.source) {turn : Turn} {m : Move}
    (hm : R.move? u turn = some m) (v : Traffic) : R.Allows ⟨u, m, v⟩ := by
  cases turn with
  | ask j position =>
    obtain ⟨r, hr, hwrap⟩ := Option.bind_eq_some_iff.1 hm
    obtain ⟨a, ha, rfl⟩ := Option.map_eq_some_iff.1 hwrap
    refine ⟨r, hr, ?_⟩
    rcases hw : R.cache.wrap r with e | a' <;> rw [hw] at ha <;> cases ha
    rfl
  | advance i =>
    obtain ⟨⟨j, k⟩, hcall, hreader⟩ := Option.bind_eq_some_iff.1 hm
    obtain ⟨c, hi, hc⟩ := Option.bind_eq_some_iff.1 hcall
    obtain ⟨r, hr, rfl⟩ := Option.map_eq_some_iff.1 hreader
    intro c' j' k' hi' hc'
    obtain rfl : c = c' := Option.some.inj (hi.symm.trans hi')
    obtain ⟨rfl, rfl⟩ := Prod.mk.inj (Option.some.inj (hc.symm.trans hc'))
    refine ⟨r, r.source, hr, ?_, rfl, rfl⟩
    rcases h.records.readers j with he | he <;> rw [hr, h.readers] at he
    · exact hown j r he.symm
    · obtain ⟨r₀, hr₀, rfl⟩ := Option.map_eq_some_iff.1 he.symm
      exact hown j r₀ hr₀
  | close j =>
    cases hm
    trivial

theorem Runs.play (h : R.Runs t log u)
    (hown : ∀ j r, R.readers[j]? = some r → R.answers j r.source) {turns : List Turn}
    {log' : List Tick} (hplay : R.play u turns = some (log', v)) : R.Runs t (log ++ log') v := by
  induction turns generalizing u log log' with
  | nil =>
    cases hplay
    rwa [List.append_nil]
  | cons turn turns ih =>
    obtain ⟨m, hm, hrest⟩ := Option.bind_eq_some_iff.1 hplay
    obtain ⟨w, hs, hrest⟩ := Option.bind_eq_some_iff.1 hrest
    obtain ⟨⟨log'', v'⟩, hrec, he⟩ := Option.map_eq_some_iff.1 hrest
    cases he
    have hallows := h.allows hown hm w
    have hnext : R.Runs t (log ++ [⟨u, m, w⟩]) w := by
      refine ⟨h.initial, h.readers, .snoc h.records hs, fun x hx ↦ ?_⟩
      rcases List.mem_append.1 hx with hx | hx
      · exact h.allowed x hx
      · exact List.mem_singleton.1 hx ▸ hallows
    have hruns := ih hnext hrec
    rwa [List.append_assoc] at hruns

theorem exists_of_play (R : Readership) (hash : ChunkId → UInt64) (turns : List Turn)
    (hown : ∀ j r, R.readers[j]? = some r → R.answers j r.source)
    (P : List Tick → Traffic → Prop) [∀ log v, Decidable (P log v)]
    (h : ((R.open? hash).bind (R.play · turns)).any fun r ↦ P r.1 r.2) :
    ∃ t log v, R.Runs t log v ∧ P log v := by
  obtain ⟨⟨log, v⟩, hrun, hprops⟩ := (Option.any_eq_true _ _).1 h
  obtain ⟨t, ht, hrun⟩ := Option.bind_eq_some_iff.1 hrun
  exact ⟨t, log, v, (runs_of_open? ht).play hown hrun, of_decide_eq_true hprops⟩

/-- Two readers of one file of 12 bytes, which cut it into chunks of these sizes. -/
def twoReaders (first second : UInt64) : Readership where
  cache := { config := { capacityBytes := some 64, shardCount := 1 }, enabled := true }
  readers := [first, second].map fun size ↦
    { Traffic.smallFile "a" 12 with chunkSize := size, statedChunkSize := size }
  answers _ source := source = .ofMemory "a" (Reader.zeros 12)

theorem twoReaders_readers {first second : UInt64} {j : Nat} {r : Reader}
    (hr : (twoReaders first second).readers[j]? = some r) :
    r.source = .ofMemory "a" (Reader.zeros 12) ∧ r.length = 12 ∧
      r.statedChunkSize = r.chunkSize := by
  obtain ⟨size, -, rfl⟩ := List.mem_map.1 (List.mem_of_getElem? hr)
  exact ⟨rfl, rfl, rfl⟩

theorem exists_of_turns (first second : UInt64) (turns : List Turn)
    (P : List Tick → Traffic → Prop) [∀ log v, Decidable (P log v)]
    (h : (((twoReaders first second).open? ChunkId.hash).bind
      ((twoReaders first second).play · turns)).any fun r ↦ P r.1 r.2) :
    ∃ t log v, (twoReaders first second).Runs t log v ∧ P log v :=
  exists_of_play _ ChunkId.hash turns (fun _ _ hr ↦ (twoReaders_readers hr).1) P h

end Readership
end ReadCache
