import ReadCache.Proofs.Readership

namespace ReadCache

namespace Reader

theorem readAt_of_broken {source : ByteSource} {position : UInt64} {length missing : Nat}
    {bytes bytes' : ByteArray} {e : Error}
    (h : fillFrom source position length missing bytes = .broken bytes' e) :
    ∃ filled < length, source.readAt (position + .ofNat filled) (length - filled) = .error e := by
  induction missing generalizing bytes with
  | zero => cases h
  | succ missing ih =>
    simp only [fillFrom] at h
    split at h
    · cases h
    split at h
    · rename_i hmissing _ _ hread
      cases h
      exact ⟨_, Nat.lt_of_not_le hmissing, hread⟩
    split at h
    · cases h
    · exact ih h

/-- The read of a chunk that is refused: it was not made, or its source refuses some of the
bytes. -/
def Refused (r : Reader) (position : UInt64) (path : String) : Prop :=
  r.closed = true ∧ r.path = path ∨
    ∃ filled < r.chunkLength position,
      r.source.readAt (position + .ofNat filled) (r.chunkLength position - filled) =
        .error (.readerClosed path)

theorem refused_of_readChunk {r : Reader} {position : UInt64} {b b' : Block} {path : String}
    (h : r.readChunk position b = (.error (.error (.readerClosed path)), b')) :
    r.Refused position path := by
  simp only [readChunk] at h
  split at h
  · cases h
  split at h
  · rename_i hclosed
    cases h
    exact .inl ⟨hclosed, rfl⟩
  split at h
  · cases h
  split at h
  · cases h
  split at h
  · cases h
  · cases h
  · rename_i hfill
    cases h
    exact .inr (readAt_of_broken hfill)

end Reader

def Failure.OfAcquiring : Failure → Prop
  | error (.bufferAllocation ..) | panic => True
  | _ => False

theorem FreeLists.ofAcquiring_of_acquire {p p' : FreeLists} {size : UInt64} {kind : BufferKind}
    {f : Failure} (h : p.acquire size kind = (.error f, p')) : f.OfAcquiring := by
  simp only [acquire] at h
  split at h
  · cases h
    trivial
  split at h
  · cases h
    trivial
  split at h
  · cases h
  · simp only [make] at h
    split at h <;> cases h
    trivial

theorem Pool.ofAcquiring_of_acquire {p : Pool} {size : UInt64} {kind : BufferKind} {f : Failure}
    (h : (p.acquire size kind).1 = .error f) : f.OfAcquiring := by
  simp only [acquire] at h
  split at h
  · cases h
    trivial
  split at h
  · cases h
  · rename_i hacquire
    cases h
    exact FreeLists.ofAcquiring_of_acquire hacquire

theorem Conduct.ofAcquiring_of_acquire {c : Conduct} {position : UInt64} {roundUp : Bool}
    {s s' : Shared} {f : Failure} (h : c.acquire position roundUp s = (.error f, s')) :
    f.OfAcquiring := by
  have hf := congrArg Prod.fst h
  simp only [acquire, Engine.acquireFor] at hf
  rcases hsize : c.reader.loadSize? position roundUp with _ | size <;> rw [hsize] at hf
  · cases hf
    trivial
  · exact Pool.ofAcquiring_of_acquire hf

theorem Failure.eq_of_told {f : Failure} {k : ChunkId} {path : String}
    (h : f.told k = .readerClosed path) : f = .error (.readerClosed path) := by
  cases f with
  | error e => exact congrArg _ h
  | panic | stuck => cases h

def Call.closedError? : Call → Option String
  | get _ _ _ (.answered (.error (.error (.readerClosed path)))) => some path
  | direct _ _ _ (.ended (.error (.error (.readerClosed path)))) => some path
  | _ => none

theorem Call.blamed_of_closedError {log : List Tick} {i j : Nat} {k : ChunkId} {c : Call}
    {path : String} (h : c.Origin log i) (hc : c.reads = some (j, k))
    (herror : c.closedError? = some path) :
    (∃ x ∈ log, x.breaks i k (.error (.readerClosed path))) ∨
      Blamed log i k (.error (.readerClosed path)) := by
  unfold closedError? at herror
  split at herror
  · cases herror
    cases hc
    exact .inr (h.resolve_left id)
  · cases herror
    cases hc
    exact .inl h
  · cases herror

theorem Call.stage_of_clear {conduct : Conduct} {s s' : Shared} {k k' : ChunkId} {j j' : Nat}
    {goal goal' : Goal} {a : Stage} {p : Ticket} {f : Failure}
    (hs : step conduct s (get k j goal a) = some (get k' j' goal' (.clear p f), s')) :
    a.step k conduct s = some (.clear p f, s') := by
  cases steps hs with
  | stage hq => exact hq

theorem Tick.mover_of_spoils {x : Tick} {k : ChunkId} {p : Ticket} {f : Failure}
    (h : x.spoils k p f) : ∃ i, x.mover? = some i := by
  obtain ⟨a, hstages⟩ := h
  rcases hm : x.mover? with _ | i
  · simp [Tick.stages?, Tick.came?, hm] at hstages
  · exact ⟨i, rfl⟩

namespace Readership
variable {R : Readership} {t v : Traffic} {log : List Tick} {k : ChunkId} {path : String}

/-- With the move the reader, as it is then, is refused its read of the chunk. -/
def Refuses (R : Readership) (j : Nat) (k : ChunkId) (path : String) (x : Tick) : Prop :=
  ∃ now source i, x.before.shared.readers[j]? = some now ∧ R.answers j source ∧
    source.path = now.path ∧ x.move = .advance i (.ofReader { now with source } k.position) ∧
    Reader.Refused { now with source } k.position path

theorem Runs.refuses_of_outcome (h : R.Runs t log v) {x : Tick} {i j : Nat} {conduct : Conduct}
    {c : Call} {b b' : Block} (hx : x ∈ log) (hm : x.move = .advance i conduct)
    (hi : x.before.calls[i]? = some c) (hc : c.reads = some (j, k))
    (ho : conduct.outcome b = (.error (.error (.readerClosed path)), b')) :
    R.Refuses j k path x := by
  obtain ⟨n, hn⟩ := List.mem_iff_getElem?.1 hx
  obtain ⟨r, now, source, -, -, -, -, hnow, hanswers, hpath, rfl⟩ := h.conduct hn hm hi hc
  exact ⟨now, source, i, hnow, hanswers, hpath, hm, Reader.refused_of_readChunk ho⟩

theorem Runs.refuses (h : R.Runs t log v) {x : Tick} {i : Nat} {p : Ticket} (hx : x ∈ log)
    (hmover : x.mover? = some i) (hspoils : x.spoils k p (.error (.readerClosed path))) :
    ∃ j, x.came?.bind Call.reads = some (j, k) ∧ R.Refuses j k path x := by
  obtain ⟨conduct, c, c', s, hm, hi, hstep, -, hcame, hwent⟩ := h.advance hx hmover
  obtain ⟨a, hstages⟩ := hspoils
  simp only [Tick.stages?, hcame, hwent] at hstages
  split at hstages
  · rename_i k' j goal a' k'' j' goal' b' hc hc'
    cases hstages
    cases hc
    cases hc'
    refine ⟨j, by rw [hcame]; rfl, ?_⟩
    rcases Stage.step_spoils (Call.stage_of_clear hstep) with ⟨b, b', -, ho⟩ | ⟨-, s', hacquire⟩
    · exact h.refuses_of_outcome hx hm hi rfl ho
    · exact (Conduct.ofAcquiring_of_acquire hacquire).elim
  · cases hstages

theorem Runs.refuses_of_breaks (h : R.Runs t log v) {x : Tick} {i : Nat} (hx : x ∈ log)
    (hbreaks : x.breaks i k (.error (.readerClosed path))) :
    ∃ j, x.came?.bind Call.reads = some (j, k) ∧ R.Refuses j k path x := by
  obtain ⟨hmover, asked, j, a, hdirect, hended⟩ := hbreaks
  obtain ⟨conduct, c, c', s, hm, hi, hstep, -, hcame, hwent⟩ := h.advance hx hmover
  obtain rfl := Option.some.inj (hcame.symm.trans hdirect)
  obtain rfl := Option.some.inj (hwent.symm.trans hended)
  refine ⟨j, by rw [hcame]; rfl, ?_⟩
  cases Call.steps hstep with
  | direct hq =>
    rcases Direct.step_breaks hq with ⟨b, b', -, ho⟩ | ⟨-, s', hacquire⟩
    · exact h.refuses_of_outcome hx hm hi rfl ho
    · exact (Conduct.ofAcquiring_of_acquire hacquire).elim

theorem Runs.reads_of_came (h : R.Runs t log v) {x : Tick} {i j : Nat} (hx : x ∈ log)
    (hmover : x.mover? = some i) (hreads : x.came?.bind Call.reads = some (j, k)) :
    ∃ c, v.calls[i]? = some c ∧ c.reads = some (j, k) := by
  obtain ⟨n, hn⟩ := List.mem_iff_getElem?.1 hx
  obtain ⟨hpast, hs, hrest⟩ := h.records.at hn
  have hp := hpast.proper h.initial.proper
  obtain ⟨c, hcame, hc⟩ := Option.bind_eq_some_iff.1 hreads
  rw [Tick.came?, hmover, Option.bind_some] at hcame
  obtain ⟨d, hd, hsame⟩ := (Traffic.Records.cons hs hrest).reads hp hcame
  exact ⟨d, hd, hsame.trans hc⟩

/-- Who is told that a reader is closed was told so by its own reader, or it waited for a load of
the same chunk that another call ran, and was told so by the reader of that call. Past the table
nobody waits for another. -/
theorem closed_error_of_closed_reader (h : R.Runs t log v) {i j : Nat} {c : Call}
    (hi : v.calls[i]? = some c) (hc : c.reads = some (j, k)) (herror : c.closedError? = some path) :
    ∃ x ∈ log, ∃ i' j', x.mover? = some i' ∧ x.came?.bind Call.reads = some (j', k) ∧
      Opens R.readers j' k.path k.kind ∧ R.Refuses j' k path x ∧
      (i' = i ∧ j' = j ∧ x.breaks i k (.error (.readerClosed path)) ∨
        ∃ p, x.spoils k p (.error (.readerClosed path)) ∧
          (i' = i ∧ j' = j ∨ i' ≠ i ∧ ∃ y ∈ log, y.receives i k p)) := by
  have hreader {x : Tick} {i' j' : Nat} (hx : x ∈ log) (hmover : x.mover? = some i')
      (hreads : x.came?.bind Call.reads = some (j', k)) :
      Opens R.readers j' k.path k.kind ∧ (i' = i → j' = j) := by
    obtain ⟨c', hc', hreads'⟩ := h.reads_of_came hx hmover hreads
    refine ⟨h.opens hc' hreads', ?_⟩
    rintro rfl
    obtain rfl := Option.some.inj (hc'.symm.trans hi)
    cases hreads'.symm.trans hc
    rfl
  rcases Call.blamed_of_closedError ((h.records.origins h.initial).calls i c hi) hc herror with
    ⟨x, hx, hbreaks⟩ | ⟨p, ⟨x, hx, hmover, hspoils⟩ | ⟨g, hg, ⟨x, hx, hspoils⟩, hreceived⟩⟩
  · obtain ⟨j', hreads, hrefuses⟩ := h.refuses_of_breaks hx hbreaks
    obtain ⟨hopens, hown⟩ := hreader hx hbreaks.1 hreads
    exact ⟨x, hx, i, j', hbreaks.1, hreads, hopens, hrefuses, .inl ⟨rfl, hown rfl, hbreaks⟩⟩
  · obtain ⟨j', hreads, hrefuses⟩ := h.refuses hx hmover hspoils
    obtain ⟨hopens, hown⟩ := hreader hx hmover hreads
    exact ⟨x, hx, i, j', hmover, hreads, hopens, hrefuses, .inr ⟨p, hspoils, .inl ⟨rfl, hown rfl⟩⟩⟩
  · obtain rfl := Failure.eq_of_told (Failure.error.inj hg).symm
    obtain ⟨i', hmover⟩ : ∃ i', x.mover? = some i' := Tick.mover_of_spoils hspoils
    obtain ⟨j', hreads, hrefuses⟩ := h.refuses hx hmover hspoils
    obtain ⟨hopens, hown⟩ := hreader hx hmover hreads
    refine ⟨x, hx, i', j', hmover, hreads, hopens, hrefuses, .inr ⟨p, hspoils, ?_⟩⟩
    by_cases he : i' = i
    · exact .inl ⟨he, hown he⟩
    · exact .inr ⟨he, hreceived⟩

theorem twoReaders_closing :
    ∃ t log v, (twoReaders 8 8).Runs t log v ∧
      (∃ x ∈ log, x.requestAt 1 0 = true ∧ x.before.calls.length = 1) ∧
      v.calls[1]?.bind Call.reads = some (1, ⟨"a", Reader.simpleKind, 0⟩) ∧
      v.calls[1]?.bind Call.closedError? = some "a" ∧
      v.shared.readers[1]?.map Reader.closed = some false := by
  let turns : List Turn := [.ask 0 0, .advance 0, .advance 0, .advance 0, .close 0, .ask 1 0,
    .advance 1, .advance 0, .advance 0, .advance 0, .advance 1]
  refine exists_of_turns 8 8 turns _ ?_
  decide +kernel

theorem closed_error_of_other_reader :
    ∃ t log v, (twoReaders 8 8).Runs t log v ∧ v.calls[1]?.bind Call.closedError? = some "a" ∧
      ∃ x ∈ log, ∃ p, ∃ j ≠ 1, ∃ r : Reader, x.before.shared.readers[j]? = some r ∧
        r.closed = true ∧ ∃ y ∈ log, y.receives 1 ⟨"a", Reader.simpleKind, 0⟩ p := by
  obtain ⟨t, log, v, hruns, -, hreads, herror, hopen⟩ := twoReaders_closing
  obtain ⟨c, hc, hcreads⟩ := Option.bind_eq_some_iff.1 hreads
  have hcerror : c.closedError? = some "a" := by rwa [hc] at herror
  obtain ⟨x, hx, i, j, -, -, -, ⟨now, source, i', hnow, hanswers, -, -, hrefused⟩, hwho⟩ :=
    closed_error_of_closed_reader hruns hc hcreads hcerror
  rcases hrefused with ⟨hclosed, -⟩ | ⟨filled, -, hread⟩
  · have hother : j ≠ 1 := by
      rintro rfl
      obtain ⟨n, hn⟩ := List.mem_iff_getElem?.1 hx
      obtain ⟨-, hs, hrest⟩ := hruns.records.at hn
      obtain ⟨r', hr', hclosed'⟩ := (Traffic.Records.cons hs hrest).closed hnow hclosed
      rw [hr', Option.map_some, hclosed'] at hopen
      cases hopen
    obtain ⟨p, -, hwaited⟩ := hwho.resolve_left fun h ↦ hother h.2.1
    obtain ⟨-, hreceived⟩ := hwaited.resolve_left fun h ↦ hother h.2
    exact ⟨t, log, v, hruns, herror, x, hx, p, j, hother, now, hnow, hclosed, hreceived⟩
  · cases hanswers
    cases hread

/-- The second reader asks, and is told that it is closed, which it never was. -/
theorem closed_error_without_close :
    ∃ t log v, (twoReaders 8 8).Runs t log v ∧
      (∃ x ∈ log, x.requestAt 1 0 = true ∧
        v.calls[x.before.calls.length]?.bind Call.closedError? = some "a") ∧
      v.shared.readers[1]?.map Reader.closed = some false := by
  obtain ⟨t, log, v, hruns, ⟨x, hx, hasked, hlength⟩, -, herror, hopen⟩ := twoReaders_closing
  exact ⟨t, log, v, hruns, ⟨x, hx, hasked, hlength ▸ herror⟩, hopen⟩

end Readership
end ReadCache
