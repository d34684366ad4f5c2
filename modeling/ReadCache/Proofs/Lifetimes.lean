import ReadCache.Proofs.References

namespace ReadCache

/-- The second is the first, some time later. -/
structure Chunk.Ages (chunk chunk' : Chunk) : Prop where
  offset : chunk'.offset = chunk.offset
  capacity : chunk'.capacity = chunk.capacity
  block : ∀ b, chunk'.block = some b → chunk.block = some b

namespace Chunk.Ages
variable {chunk chunk' chunk'' : Chunk}

theorem refl (chunk : Chunk) : chunk.Ages chunk := ⟨rfl, rfl, fun _ hb ↦ hb⟩

theorem trans (h : chunk.Ages chunk') (h' : chunk'.Ages chunk'') : chunk.Ages chunk'' :=
  ⟨h'.offset.trans h.offset, h'.capacity.trans h.capacity, fun b hb ↦ h.block b (h'.block b hb)⟩

theorem unreference (chunk : Chunk) : chunk.Ages chunk.unreference.2 := by
  unfold Chunk.unreference
  split
  · exact refl chunk
  · split
    · exact ⟨rfl, rfl, fun _ hb ↦ by cases hb⟩
    · exact ⟨rfl, rfl, fun _ hb ↦ hb⟩

end Chunk.Ages

namespace Memory

def Ages (m m' : Memory) : Prop :=
  ∀ c chunk, m.chunk? c = some chunk → ∃ chunk', m'.chunk? c = some chunk' ∧ chunk.Ages chunk'

/-- A chunk out of those that are touched is what it was, and so is one without references. -/
def Spares (m m' : Memory) (touched : List ChunkRef) : Prop :=
  ∀ c chunk, m.chunk? c = some chunk → c ∉ touched ∨ chunk.references = 0 →
    m'.chunk? c = some chunk

variable {m m' m'' : Memory} {c : ChunkRef} {chunk : Chunk}

theorem ages_of_chunks (h : m'.chunks = m.chunks) : m.Ages m' :=
  fun _ chunk hc ↦ ⟨chunk, by rwa [chunk?, h], .refl chunk⟩

theorem spares_of_chunks (h : m'.chunks = m.chunks) (touched : List ChunkRef) :
    m.Spares m' touched :=
  fun _ _ hc _ ↦ by rwa [chunk?, h]

theorem ages_refl (m : Memory) : m.Ages m := ages_of_chunks rfl

theorem Ages.trans (h : m.Ages m') (h' : m'.Ages m'') : m.Ages m'' := by
  intro c chunk hc
  obtain ⟨chunk', hc', hage⟩ := h c chunk hc
  obtain ⟨chunk'', hc'', hage'⟩ := h' c chunk' hc'
  exact ⟨chunk'', hc'', hage.trans hage'⟩

theorem ages_setChunk {chunk' : Chunk} (hc : m.chunk? c = some chunk) (hage : chunk.Ages chunk') :
    m.Ages (m.setChunk c chunk') := by
  intro d other hd
  rw [chunk?_setChunk (lt_of_chunk? hc)]
  by_cases he : c = d
  · subst he
    rw [hc] at hd
    cases hd
    exact ⟨chunk', if_pos rfl, hage⟩
  · exact ⟨other, by rw [if_neg he, hd], .refl other⟩

theorem spares_setChunk {chunk' : Chunk} (hc : m.chunk? c = some chunk)
    (hz : chunk.references = 0 → chunk' = chunk) : m.Spares (m.setChunk c chunk') [c] := by
  intro d other hd hfree
  rw [chunk?_setChunk (lt_of_chunk? hc)]
  by_cases he : c = d
  · subst he
    obtain rfl := Option.some.inj (hc.symm.trans hd)
    rw [if_pos rfl, hz (hfree.resolve_left fun hn ↦ hn List.mem_cons_self)]
  · rw [if_neg he, hd]

theorem chunk?_adopt (m : Memory) (b : Block) (offset : UInt64) (c : ChunkRef) :
    (m.adopt b offset).2.chunk? c =
      if c = m.chunks.size then some (.ofBlock b offset) else m.chunk? c := by
  simp only [chunk?, Memory.adopt, Array.getElem?_push]

theorem ages_adopt (m : Memory) (b : Block) (offset : UInt64) : m.Ages (m.adopt b offset).2 := by
  intro c chunk hc
  refine ⟨chunk, ?_, .refl chunk⟩
  rw [chunk?_adopt, if_neg (Nat.ne_of_lt (lt_of_chunk? hc)), hc]

theorem spares_adopt (m : Memory) (b : Block) (offset : UInt64) (touched : List ChunkRef) :
    m.Spares (m.adopt b offset).2 touched :=
  fun _ _ hc _ ↦ by rw [chunk?_adopt, if_neg (Nat.ne_of_lt (lt_of_chunk? hc)), hc]

@[simp] theorem size_adopt (m : Memory) (b : Block) (offset : UInt64) :
    (m.adopt b offset).2.chunks.size = m.chunks.size + 1 := by simp [Memory.adopt]

theorem ages_share (m : Memory) (c : ChunkRef) : m.Ages (m.share c) := by
  unfold Memory.share
  split
  · exact ages_refl m
  · rename_i chunk hc
    exact ages_setChunk hc ⟨rfl, rfl, fun _ hb ↦ hb⟩

theorem chunk?_share_of_ne {d : ChunkRef} (hne : c ≠ d) : (m.share c).chunk? d = m.chunk? d := by
  unfold Memory.share
  split
  · rfl
  · rw [chunk?_setChunk (lt_of_chunk? ‹_›), if_neg hne]

@[simp] theorem size_share (m : Memory) (c : ChunkRef) :
    (m.share c).chunks.size = m.chunks.size := by
  unfold Memory.share
  split
  · rfl
  · exact size_setChunk m c _

theorem ages_reference (m : Memory) (c : ChunkRef) : m.Ages (m.reference c).2 := by
  rcases reference_cases m c with ⟨chunk, hc, -, -, he⟩ | ⟨-, he⟩ <;> rw [he]
  · exact ages_setChunk hc ⟨rfl, rfl, fun _ hb ↦ hb⟩
  · exact ages_refl m

theorem spares_reference (m : Memory) (c : ChunkRef) : m.Spares (m.reference c).2 [c] := by
  rcases reference_cases m c with ⟨chunk, hc, hz, -, he⟩ | ⟨-, he⟩ <;> rw [he]
  · exact spares_setChunk hc fun hz' ↦ (hz hz').elim
  · exact spares_of_chunks rfl [c]

@[simp] theorem size_reference (m : Memory) (c : ChunkRef) :
    (m.reference c).2.chunks.size = m.chunks.size := by
  rcases reference_cases m c with ⟨chunk, -, -, -, he⟩ | ⟨-, he⟩ <;> rw [he]
  exact size_setChunk m c _

theorem ages_unreference (m : Memory) (c : ChunkRef) : m.Ages (m.unreference c) := by
  rcases hc : m.chunk? c with _ | chunk
  · rw [Memory.unreference, hc]
    exact ages_refl m
  · exact (ages_setChunk hc (.unreference chunk)).trans (ages_of_chunks (chunks_unreference hc))

theorem spares_unreference (m : Memory) (c : ChunkRef) : m.Spares (m.unreference c) [c] := by
  rcases hc : m.chunk? c with _ | chunk
  · rw [Memory.unreference, hc]
    exact spares_of_chunks rfl [c]
  · intro d other hd hfree
    have hset : m.Spares (m.setChunk c chunk.unreference.2) [c] :=
      spares_setChunk hc fun hz ↦ by rw [Chunk.unreference, if_pos hz]
    rw [chunk?, chunks_unreference hc]
    exact hset d other hd hfree

end Memory
end ReadCache
