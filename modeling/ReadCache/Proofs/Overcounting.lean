import ReadCache.Proofs.History

namespace ReadCache

/-- With `n` references more, as far as 32 bits can tell. -/
def Chunk.shareMany (chunk : Chunk) (n : Nat) : Chunk :=
  { chunk with references := chunk.references + .ofNat n }

theorem Chunk.shareMany_zero (chunk : Chunk) : chunk.shareMany 0 = chunk := by
  simp [shareMany]

theorem Chunk.shareMany_shareMany (chunk : Chunk) (n m : Nat) :
    (chunk.shareMany n).shareMany m = chunk.shareMany (n + m) := by
  simp only [shareMany, UInt32.ofNat_add, UInt32.add_assoc]

theorem Chunk.share_shareMany (chunk : Chunk) (n : Nat) :
    (chunk.shareMany n).share = chunk.shareMany (n + 1) := chunk.shareMany_shareMany n 1

theorem UInt32.ofNat_eq_zero {n : Nat} (hn : n = UInt32.size) : UInt32.ofNat n = 0 := by
  rw [hn]
  decide

/-- A reference that is given up where the count says there is none is not taken off. -/
theorem Chunk.unreference_of_none {chunk : Chunk} (h : chunk.references = 0) :
    chunk.unreference.2 = chunk := by
  rw [unreference, if_pos h]

namespace Memory
variable {m : Memory} {c : ChunkRef} {chunk : Chunk}

def shareMany (m : Memory) (c : ChunkRef) (n : Nat) : Memory :=
  match m.chunk? c with
  | none => m
  | some chunk => m.setChunk c (chunk.shareMany n)

theorem shareMany_of_some (hc : m.chunk? c = some chunk) (n : Nat) :
    m.shareMany c n = m.setChunk c (chunk.shareMany n) := by
  simp only [shareMany, hc]

theorem chunk?_shareMany (hc : m.chunk? c = some chunk) (n : Nat) :
    (m.shareMany c n).chunk? c = some (chunk.shareMany n) := by
  rw [shareMany_of_some hc, chunk?_setChunk (lt_of_chunk? hc), if_pos rfl]

theorem share_shareMany (m : Memory) (c : ChunkRef) (n : Nat) :
    (m.shareMany c n).share c = m.shareMany c (n + 1) := by
  rcases hc : m.chunk? c with _ | chunk
  · simp only [shareMany, hc, Memory.share]
  · have hat := chunk?_shareMany hc n
    rw [Memory.share, hat, shareMany_of_some hc, shareMany_of_some hc]
    simp only [setChunk, Array.setIfInBounds_setIfInBounds, Chunk.share_shareMany]

theorem shareMany_zero (m : Memory) (c : ChunkRef) : m.shareMany c 0 = m := by
  rcases hc : m.chunk? c with _ | chunk
  · simp only [shareMany, hc]
  · rw [shareMany_of_some hc, Chunk.shareMany_zero, setChunk_self hc]

end Memory

def Shared.shareMany (s : Shared) (h : Handle) (n : Nat) : Shared :=
  { s.onMemory (·.shareMany h.chunk n) with handles := s.handles ++ List.replicate n h }

theorem Shared.shareMany_zero (s : Shared) (h : Handle) : s.shareMany h 0 = s := by
  simp only [shareMany, onMemory, withEngine, Engine.onMemory, Memory.shareMany_zero,
    List.replicate_zero, List.append_nil]

namespace Traffic
variable {t : Traffic} {h : Handle} {i : Nat}

def shareMany (t : Traffic) (h : Handle) (n : Nat) : Traffic := t.onShared (·.shareMany h n)

theorem shareMany_zero (t : Traffic) (h : Handle) : t.shareMany h 0 = t := by
  rw [shareMany, onShared, Shared.shareMany_zero]

theorem step_shareMany (hi : t.shared.handles[i]? = some h) (n : Nat) :
    (t.shareMany h n).step (.share i) = some (t.shareMany h (n + 1)) := by
  have hlt := (List.getElem?_eq_some_iff.1 hi).1
  have hat : (t.shareMany h n).shared.handles[i]? = some h := by
    rw [← hi]
    exact List.getElem?_append_left hlt
  simp only [step, hat, Option.some.injEq]
  simp only [shareMany, Shared.shareMany, onShared, Shared.addHandle, Shared.onMemory,
    Shared.withEngine, Engine.onMemory, Memory.share_shareMany, List.append_assoc]
  rw [← List.replicate_succ']

theorem records_shareMany (hi : t.shared.handles[i]? = some h) (n : Nat) :
    ∃ log, Records t log (t.shareMany h n) ∧
      ∀ x ∈ log, x.move = .share i ∧ x.before.calls = t.calls := by
  induction n with
  | zero =>
    rw [shareMany_zero]
    exact ⟨[], .nil, by simp⟩
  | succ n ih =>
    obtain ⟨log, hrec, hlog⟩ := ih
    refine ⟨_, hrec.snoc (step_shareMany hi n), fun x hx ↦ ?_⟩
    rcases List.mem_append.1 hx with hx | hx
    · exact hlog x hx
    · rw [List.mem_singleton.1 hx]
      exact ⟨rfl, rfl⟩

theorem handlesOn_shareMany (t : Traffic) (h : Handle) (n : Nat) :
    (t.shareMany h n).handlesOn h.chunk = t.handlesOn h.chunk + n := by
  simp [handlesOn, shareMany, onShared, Shared.shareMany]

/-- One handle on a chunk of the table can be shared until the count is whatever one likes. -/
theorem exists_shares {c : ChunkRef} (hhandles : t.shared.handles = [⟨c, none⟩])
    (href : (t.shared.memory.chunk? c).map Chunk.references = some 2) (n : Nat) :
    ∃ log chunk, Records t log (t.shareMany ⟨c, none⟩ n) ∧
      (∀ x ∈ log, x.move = .share 0 ∧ x.before.calls = t.calls) ∧
      (t.shareMany ⟨c, none⟩ n).handlesOn c = n + 1 ∧
      (t.shareMany ⟨c, none⟩ n).shared.memory.chunk? c = some chunk ∧
      chunk.references = .ofNat (n + 2) := by
  obtain ⟨chunk, hc, htwice⟩ := Option.map_eq_some_iff.1 href
  have hi : t.shared.handles[0]? = some ⟨c, none⟩ := by rw [hhandles]; rfl
  obtain ⟨log, hrec, hlog⟩ := records_shareMany hi n
  have hone : t.handlesOn c = 1 := by simp [handlesOn, hhandles]
  refine ⟨log, chunk.shareMany n, hrec, hlog, ?_, Memory.chunk?_shareMany hc n, ?_⟩
  · rw [handlesOn_shareMany t ⟨c, none⟩ n, hone, Nat.add_comm]
  · rw [Nat.add_comm, UInt32.ofNat_add, Chunk.shareMany, htwice]
    rfl

end Traffic
end ReadCache
