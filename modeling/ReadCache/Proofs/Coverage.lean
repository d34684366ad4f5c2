import ReadCache.Proofs.Readership

namespace ReadCache

namespace Call

theorem loaded_of_gave {log : List Tick} {i j : Nat} {c : Call} {k : ChunkId} {handle : Handle}
    (h : c.Origin log i) (hreads : c.reads = some (j, k)) (hgave : c.gave? = some handle) :
    Loaded log k handle.chunk := by
  unfold gave? at hgave
  split at hgave <;> cases hgave <;> cases hreads <;> exact h

theorem reads_rebuffer (a : Access) (j : Nat) (position : UInt64) :
    (rebuffer a j position).reads = some (j, a.chunkId position) := by
  unfold rebuffer
  split <;> rfl

end Call

namespace Traffic
variable {t v : Traffic} {log : List Tick}

theorem Records.reads_of_request {q j : Nat} {request : Tick} {a : Access} {position : UInt64}
    (hp : t.shared.store.slots.Proper) (h : Records t log v) (hq : log[q]? = some request)
    (hrequest : request.move = .start (.rebuffer a j position)) :
    ∃ c, v.calls[request.before.calls.length]? = some c ∧
      c.reads = some (j, a.chunkId position) := by
  obtain ⟨hpast, hs, hrest⟩ := h.at hq
  have hpast := hpast.proper hp
  have hgrown := ((step_goes hpast hs).grows hpast).proper
  rw [hrequest] at hs
  have hmade : request.after.calls[request.before.calls.length]? =
      some (Call.rebuffer a j position) := by
    rw [← Option.some.inj hs]
    exact List.getElem?_concat_length
  obtain ⟨c, hc, hreads⟩ := hrest.reads hgrown hmade
  exact ⟨c, hc, hreads.trans (Call.reads_rebuffer a j position)⟩

end Traffic

namespace Readership
variable {R : Readership} {t v : Traffic} {log : List Tick}

theorem Runs.reader_of_request (h : R.Runs t log v) {x : Tick} {a : Access} {j : Nat}
    {position : UInt64} (hx : x ∈ log) (hm : x.move = .start (.rebuffer a j position)) :
    R.readers[j]? = some a.reader ∧ isPowerOfTwo a.reader.statedChunkSize = true := by
  have hallowed := h.allowed x hx
  rw [Allows, hm] at hallowed
  obtain ⟨r, hr, hwrap⟩ := hallowed
  obtain ⟨rfl, hpower⟩ := Session.reader_of_wrap hwrap
  exact ⟨hr, hpower⟩

/-- The handle that a request is given begins where the chunk of its own reader does, and has the
bytes of the file from there on, up to the end of a chunk as a reader of the file cuts it. It covers
the position that was asked for, unless that reader cuts smaller chunks. -/
theorem handle_covers_unless_smaller (h : R.Runs t log v) (hmodest : ∀ x ∈ log, x.after.Modest)
    {q j : Nat} {request : Tick} {a : Access} {position : UInt64} (hq : log[q]? = some request)
    (hrequest : request.move = .start (.rebuffer a j position)) {data : ByteArray} {length : UInt64}
    (hfile : ∀ i r, R.readers[i]? = some r → r.path = a.reader.path → r.kind = a.reader.kind →
      r.length = length ∧ r.statedChunkSize = r.chunkSize ∧
        ∀ source, R.answers i source → source.Serves data) {handle : Handle}
    (hgave : v.calls[request.before.calls.length]?.bind Call.gave? = some handle)
    (hheld : handle ∈ v.shared.handles) :
    ∃ chunk bytes r, v.shared.memory.chunk? handle.chunk = some chunk ∧
      v.shared.memory.view? handle.chunk = some bytes ∧
      chunk.offset.toNat = position.toNat - position.toNat % a.reader.chunkSize.toNat ∧
      r ∈ R.readers ∧ r.path = a.reader.path ∧ r.kind = a.reader.kind ∧
      bytes = data.extract chunk.offset.toNat
        (min (chunk.offset.toNat + r.chunkSize.toNat) length.toNat) ∧
      bytes.size = min (length.toNat - chunk.offset.toNat) r.chunkSize.toNat ∧
      (position < length →
        (chunk.offset.toNat ≤ position.toNat ∧
          position.toNat < chunk.offset.toNat + bytes.size) ∨
        r.chunkSize < a.reader.chunkSize) := by
  have hp := h.initial.proper
  obtain ⟨hasker, hpower⟩ := h.reader_of_request (List.mem_of_getElem? hq) hrequest
  obtain ⟨-, hstated, -⟩ := hfile j a.reader hasker rfl rfl
  obtain ⟨c, hc, hreads⟩ := h.records.reads_of_request hp hq hrequest
  rw [hc, Option.bind_some] at hgave
  have horigin := (h.records.origins h.initial).calls _ c hc
  obtain ⟨i, r, source, b, b', chunk, hr, hpath, hkind, hanswers, hread, hchunk, hoffset, hblock⟩ :=
    h.loaded (Call.loaded_of_gave horigin hreads hgave)
  have hreach := h.records.reaches hmodest
  obtain ⟨chunk', b₁, hchunk', hb₁, hview⟩ := Traffic.view?_of_handle
    (Traffic.accounted_of_reaches (Traffic.accounted_of_initial h.initial) hreach) hheld
  obtain rfl : chunk = chunk' := Option.some.inj (hchunk.symm.trans hchunk')
  obtain rfl := hblock b₁ hb₁
  obtain ⟨rfl, -, hserves⟩ := hfile i r hr hpath hkind
  obtain ⟨hsize, hbytes⟩ := Reader.readChunk_full (hserves source hanswers) hread
  have hstart : chunk.offset.toNat =
      position.toNat - position.toNat % a.reader.chunkSize.toNat := by
    rw [hoffset, ← hstated]
    exact Access.toNat_aligned hpower position
  rw [← hoffset] at hsize hbytes
  refine ⟨chunk, b₁.bytes, r, hchunk, hview, hstart, List.mem_of_getElem? hr, hpath, hkind, hbytes,
    hsize, fun hinside ↦ ?_⟩
  by_cases hsmaller : r.chunkSize < a.reader.chunkSize
  · exact .inr hsmaller
  · left
    have hlarge : a.reader.chunkSize.toNat ≤ r.chunkSize.toNat :=
      Nat.not_lt.1 fun hlt ↦ hsmaller (UInt64.lt_iff_toNat_lt.2 hlt)
    have hin : position.toNat < r.length.toNat := UInt64.lt_iff_toNat_lt.1 hinside
    obtain ⟨n, -, hn⟩ := Reader.toNat_of_isPowerOfTwo hpower
    have hmod : position.toNat % a.reader.chunkSize.toNat < a.reader.chunkSize.toNat := by
      refine Nat.mod_lt _ ?_
      rw [← hstated, hn]
      exact Nat.two_pow_pos n
    have hle := Nat.mod_le position.toNat a.reader.chunkSize.toNat
    simp only [Reader.chunkLength] at hsize
    omega

theorem handle_covers_of_larger_chunk :
    ∃ t log v handle chunk bytes, (twoReaders 8 16).Runs t log v ∧
      v.calls[1]?.bind Call.gave? = some handle ∧ handle.asked.map (·.position) = some 3 ∧
      v.shared.memory.chunk? handle.chunk = some chunk ∧
      v.shared.memory.view? handle.chunk = some bytes ∧
      chunk.offset.toNat ≤ 3 ∧ 3 < chunk.offset.toNat + bytes.size := by
  let turns : List Turn := .ask 1 0 :: List.replicate 9 (.advance 0) ++
    .ask 0 3 :: List.replicate 2 (.advance 1)
  let handle : Handle := ⟨0, some ⟨"a", Reader.simpleKind, 3⟩⟩
  obtain ⟨t, log, v, hruns, hlog, hasked, hgave, hheld⟩ := exists_of_turns 8 16 turns
    (fun log v ↦ (∀ x ∈ log, x.after.shared.handles.length + 1 < UInt32.size) ∧
      log[10]?.any (fun x ↦ x.requestAt 0 3 ∧ x.before.calls.length = 1) ∧
      v.calls[1]?.bind Call.gave? = some handle ∧ handle ∈ v.shared.handles) (by decide +kernel)
  obtain ⟨request, hq, hrequest⟩ := (Option.any_eq_true _ _).1 hasked
  obtain ⟨hat, hlength⟩ := of_decide_eq_true hrequest
  obtain ⟨a, hmove⟩ := Tick.move_of_requestAt hat
  have hmodest : ∀ x ∈ log, x.after.Modest := fun x hx ↦ Traffic.modest_of_few (hlog x hx)
  have hgave' : v.calls[request.before.calls.length]?.bind Call.gave? = some handle := hlength ▸ hgave
  have hfile (j : Nat) (r : Reader) (hr : (twoReaders 8 16).readers[j]? = some r)
      (_ : r.path = a.reader.path) (_ : r.kind = a.reader.kind) :
      r.length = 12 ∧ r.statedChunkSize = r.chunkSize ∧
        ∀ source, (twoReaders 8 16).answers j source → source.Serves (Reader.zeros 12) := by
    obtain ⟨-, hlength, hstated⟩ := twoReaders_readers hr
    refine ⟨hlength, hstated, fun source hsource ↦ ?_⟩
    rw [show source = .ofMemory "a" (Reader.zeros 12) from hsource]
    exact ByteSource.serves_ofMemory _ _
  obtain ⟨chunk, bytes, r, hchunk, hview, -, hr, -, -, -, -, hcovers⟩ :=
    handle_covers_unless_smaller hruns hmodest hq hmove hfile hgave' hheld
  have hreader := Option.some.inj (hruns.reader_of_request (List.mem_of_getElem? hq) hmove).1
  have hlarge : ¬ r.chunkSize < a.reader.chunkSize := by
    rw [← hreader]
    rcases List.mem_cons.1 hr with rfl | hr
    · decide
    · cases List.mem_singleton.1 hr
      decide
  exact ⟨t, log, v, handle, chunk, bytes, hruns, hgave, rfl, hchunk, hview,
    (hcovers (by decide)).resolve_right hlarge⟩

/-- The chunk of 8 is loaded, and the reader that cuts chunks of 16 asks for the position 10. It is
given the chunk of 8, which does not have it. -/
theorem handle_misses_position :
    ∃ t log v handle chunk bytes, (twoReaders 8 16).Runs t log v ∧
      (twoReaders 8 16).cache.isEnabled = true ∧
      (∀ r ∈ (twoReaders 8 16).readers, 10 < r.length) ∧
      (∃ request ∈ log, request.requestAt 1 10 = true ∧
        v.calls[request.before.calls.length]?.bind Call.gave? = some handle) ∧
      handle ∈ v.shared.handles ∧ v.shared.memory.chunk? handle.chunk = some chunk ∧
      v.shared.memory.view? handle.chunk = some bytes ∧
      ¬ (chunk.offset.toNat ≤ 10 ∧ 10 < chunk.offset.toNat + bytes.size) := by
  let turns : List Turn := .ask 0 0 :: List.replicate 9 (.advance 0) ++
    .ask 1 10 :: List.replicate 2 (.advance 1)
  let handle : Handle := ⟨0, some ⟨"a", Reader.simpleKind, 10⟩⟩
  obtain ⟨t, log, v, hruns, hasked, hheld, hchunk⟩ := exists_of_turns 8 16 turns
    (fun log v ↦
      (∃ x ∈ log, x.requestAt 1 10 = true ∧
        v.calls[x.before.calls.length]?.bind Call.gave? = some handle) ∧
      handle ∈ v.shared.handles ∧ (v.shared.memory.chunk? 0).any fun chunk ↦ chunk.offset = 0 ∧
        (v.shared.memory.view? 0).any fun bytes ↦ bytes.size = 8) (by decide +kernel)
  obtain ⟨chunk, hchunk, hprops⟩ := (Option.any_eq_true _ _).1 hchunk
  obtain ⟨hoffset, hview⟩ := of_decide_eq_true hprops
  obtain ⟨bytes, hview, hsize⟩ := (Option.any_eq_true _ _).1 hview
  refine ⟨t, log, v, handle, chunk, bytes, hruns, rfl, by decide +kernel, hasked, hheld, hchunk, hview,
    ?_⟩
  rw [hoffset, of_decide_eq_true hsize]
  decide

end Readership
end ReadCache
