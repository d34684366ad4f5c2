import Mathlib
import ReadCache.Memory

namespace ReadCache

theorem UInt32.toNat_succ {n : UInt32} (h : n.toNat + 1 < UInt32.size) :
    (n + 1).toNat = n.toNat + 1 := by
  rw [UInt32.toNat_add]
  exact Nat.mod_eq_of_lt h

theorem UInt32.toNat_pred {n : UInt32} (h : n ≠ 0) : (n - 1).toNat = n.toNat - 1 := by
  have hpos : n.toNat ≠ 0 := fun e ↦ h (UInt32.toNat_inj.1 e)
  refine UInt32.toNat_sub_of_le n 1 (UInt32.le_iff_toNat_le.2 ?_)
  rw [show (1 : UInt32).toNat = 1 from rfl]
  omega

namespace Memory

def alive (m : Memory) : Nat := m.chunks.countP (·.block.isSome)

/-- Would giving up a reference to the chunk hand its block to the pool? -/
def frees (m : Memory) (c : ChunkRef) : Bool := ((m.chunk? c).bind (·.unreference.1)).isSome

/-- Of the blocks that went out, `loose` are with reads under way and one is with each chunk. -/
def Balanced (m : Memory) (loose : Nat) : Prop :=
  m.pool.acquired = m.pool.released + loose + m.alive

structure Counts (m : Memory) (refs : List ChunkRef) : Prop where
  known : ∀ c ∈ refs, c < m.chunks.size
  count : ∀ c chunk, m.chunk? c = some chunk → chunk.references.toNat = refs.count c
  kept : ∀ c chunk, m.chunk? c = some chunk → (chunk.block.isSome ↔ c ∈ refs)

variable {m : Memory} {c : ChunkRef} {chunk : Chunk} {refs : List ChunkRef}

theorem lt_of_chunk? (h : m.chunk? c = some chunk) : c < m.chunks.size :=
  (Array.getElem?_eq_some_iff.1 h).1

theorem exists_chunk (h : c < m.chunks.size) : ∃ chunk, m.chunk? c = some chunk :=
  ⟨_, Array.getElem?_eq_getElem h⟩

@[simp] theorem size_setChunk (m : Memory) (c : ChunkRef) (chunk : Chunk) :
    (m.setChunk c chunk).chunks.size = m.chunks.size := by simp [setChunk]

theorem chunk?_setChunk (h : c < m.chunks.size) (chunk : Chunk) (c' : ChunkRef) :
    (m.setChunk c chunk).chunk? c' = if c = c' then some chunk else m.chunk? c' := by
  simp only [chunk?, setChunk, Array.getElem?_setIfInBounds, h, if_true]

theorem alive_setChunk (h : m.chunk? c = some chunk) (chunk' : Chunk) :
    (m.setChunk c chunk').alive + chunk.block.isSome.toNat =
      m.alive + chunk'.block.isSome.toNat := by
  obtain ⟨hlt, he⟩ := Array.getElem?_eq_some_iff.1 h
  have hset : (m.setChunk c chunk').chunks = m.chunks.set c chunk' hlt := by
    simp [setChunk, Array.setIfInBounds, hlt]
  have hpos : chunk.block.isSome.toNat ≤ m.alive := by
    cases hb : chunk.block.isSome
    · simp
    · exact Array.countP_pos_iff.2 ⟨chunk, he ▸ Array.getElem_mem hlt, hb⟩
  have hcount := @Array.countP_set _ (·.block.isSome) m.chunks _ chunk' hlt
  simp only [he] at hcount
  unfold alive at hpos ⊢
  rw [hset, hcount]
  cases h₁ : chunk.block.isSome <;> cases h₂ : chunk'.block.isSome <;>
    simp only [h₁, Bool.toNat_true, Bool.toNat_false, if_true, if_false, Bool.false_eq_true] at hpos ⊢ <;>
    omega

theorem released_giveBack (m : Memory) (b : Block) :
    (m.giveBack b).pool.released = m.pool.released + 1 ∧
      (m.giveBack b).pool.acquired = m.pool.acquired := by
  unfold giveBack Pool.release
  dsimp only
  split <;> exact ⟨rfl, rfl⟩

theorem Balanced.giveBack {loose : Nat} (h : m.Balanced (loose + 1)) (b : Block) :
    (m.giveBack b).Balanced loose := by
  have hp := released_giveBack m b
  have ha : (m.giveBack b).alive = m.alive := rfl
  simp only [Balanced] at h ⊢
  omega

theorem Counts.adopt (h : m.Counts refs) (b : Block) (offset : UInt64) :
    (m.adopt b offset).2.Counts (m.chunks.size :: refs) := by
  have hfresh : m.chunks.size ∉ refs := fun hm ↦ Nat.lt_irrefl _ (h.known _ hm)
  have hchunk (c : ChunkRef) (chunk : Chunk) (hc : (m.adopt b offset).2.chunk? c = some chunk) :
      (c = m.chunks.size ∧ chunk = .ofBlock b offset) ∨
        (c ≠ m.chunks.size ∧ m.chunk? c = some chunk) := by
    simp only [chunk?, Memory.adopt, Array.getElem?_push] at hc
    split at hc
    · exact .inl ⟨‹_›, (Option.some.inj hc).symm⟩
    · exact .inr ⟨‹_›, hc⟩
  constructor
  · intro c hc
    simp only [Memory.adopt, Array.size_push]
    rcases List.mem_cons.1 hc with rfl | hc
    · exact Nat.lt_succ_self _
    · exact Nat.lt_succ_of_lt (h.known c hc)
  · intro c chunk hc
    rcases hchunk c chunk hc with ⟨rfl, rfl⟩ | ⟨hne, hc⟩
    · simp [Chunk.ofBlock, List.count_eq_zero.2 hfresh]
    · rw [h.count c chunk hc, List.count_cons_of_ne (Ne.symm hne)]
  · intro c chunk hc
    rcases hchunk c chunk hc with ⟨rfl, rfl⟩ | ⟨hne, hc⟩
    · simp [Chunk.ofBlock]
    · rw [h.kept c chunk hc, List.mem_cons]
      simp [hne]

theorem Balanced.adopt {loose : Nat} (h : m.Balanced (loose + 1)) (b : Block) (offset : UInt64) :
    (m.adopt b offset).2.Balanced loose := by
  simp only [Balanced, alive, Memory.adopt] at h ⊢
  rw [Array.countP_push]
  simp only [Chunk.ofBlock, Option.isSome_some, if_true]
  omega

theorem Counts.setChunk_more (h : m.Counts refs) (hc : m.chunk? c = some chunk) (hm : c ∈ refs)
    (hn : chunk.references.toNat + 1 < UInt32.size) :
    (m.setChunk c { chunk with references := chunk.references + 1 }).Counts (c :: refs) := by
  have hlt := lt_of_chunk? hc
  constructor
  · intro c' hc'
    rw [size_setChunk]
    rcases List.mem_cons.1 hc' with rfl | hc'
    · exact hlt
    · exact h.known c' hc'
  · intro c' chunk' hc'
    rw [chunk?_setChunk hlt] at hc'
    split at hc'
    · subst c'
      cases hc'
      simp [UInt32.toNat_succ hn, h.count c chunk hc]
    · rename_i hne
      rw [h.count c' chunk' hc', List.count_cons_of_ne hne]
  · intro c' chunk' hc'
    rw [chunk?_setChunk hlt] at hc'
    split at hc'
    · subst c'
      cases hc'
      simp [h.kept c chunk hc, hm]
    · rename_i hne
      rw [h.kept c' chunk' hc', List.mem_cons]
      simp [Ne.symm hne]

theorem Counts.share (h : m.Counts refs) (hm : c ∈ refs) (hn : refs.count c + 1 < UInt32.size) :
    (m.share c).Counts (c :: refs) := by
  obtain ⟨chunk, hc⟩ := exists_chunk (h.known c hm)
  simp only [Memory.share, hc]
  exact h.setChunk_more hc hm (by rwa [h.count c chunk hc])

theorem setChunk_self (hc : m.chunk? c = some chunk) : m.setChunk c chunk = m := by
  obtain ⟨hlt, he⟩ := Array.getElem?_eq_some_iff.1 hc
  simp [setChunk, Array.setIfInBounds, hlt, ← he]

theorem reference_cases (m : Memory) (c : ChunkRef) :
    (∃ chunk, m.chunk? c = some chunk ∧ chunk.references ≠ 0 ∧
      chunk.references.toNat + 1 < UInt32.size ∧
      m.reference c =
        (.ok true, m.setChunk c { chunk with references := chunk.references + 1 })) ∨
    ((m.reference c).1 ≠ .ok true ∧ (m.reference c).2 = m) := by
  rcases hc : m.chunk? c with _ | chunk
  · exact .inr (by simp [Memory.reference, hc])
  · have hself := setChunk_self hc
    simp only [Memory.reference, hc, Chunk.reference]
    by_cases hz : chunk.references = 0
    · exact .inr (by simp [hz, hself])
    · by_cases hlt : chunk.references.toNat + 1 < UInt32.size
      · exact .inl ⟨chunk, rfl, hz, hlt, by rw [if_neg hz, if_pos hlt]⟩
      · rw [if_neg hz, if_neg hlt]
        exact .inr ⟨by simp, hself⟩

theorem memory_of_reference {result : Except Failure Bool} {m' : Memory}
    (h : m.reference c = (result, m')) (hr : result ≠ .ok true) : m' = m := by
  rcases reference_cases m c with ⟨_, -, -, -, he⟩ | ⟨-, he⟩ <;> rw [h] at he
  · cases he
    exact absurd rfl hr
  · exact he

theorem Counts.mem_of_references (h : m.Counts refs) (hc : m.chunk? c = some chunk)
    (hz : chunk.references ≠ 0) : c ∈ refs := by
  refine List.count_pos_iff.1 (Nat.pos_of_ne_zero fun e ↦ hz (UInt32.toNat_inj.1 ?_))
  rw [h.count c chunk hc, e]
  rfl

theorem Counts.reference (h : m.Counts refs) (hr : (m.reference c).1 = .ok true) :
    c ∈ refs ∧ (m.reference c).2.Counts (c :: refs) := by
  rcases reference_cases m c with ⟨chunk, hc, hz, hlt, he⟩ | ⟨hne, -⟩
  · have hm := h.mem_of_references hc hz
    rw [he]
    exact ⟨hm, h.setChunk_more hc hm hlt⟩
  · exact absurd hr hne

theorem Balanced.share {loose : Nat} (h : m.Balanced loose) (c : ChunkRef) :
    (m.share c).Balanced loose := by
  unfold Memory.share
  split
  · exact h
  · rename_i chunk hc
    have ha := alive_setChunk hc chunk.share
    simp only [Balanced, Chunk.share, setChunk] at h ha ⊢
    omega

theorem Balanced.reference {loose : Nat} (h : m.Balanced loose) (c : ChunkRef) :
    (m.reference c).2.Balanced loose := by
  rcases reference_cases m c with ⟨chunk, hc, -, -, he⟩ | ⟨-, he⟩
  · have ha := alive_setChunk hc { chunk with references := chunk.references + 1 }
    rw [he]
    simp only [Balanced, setChunk] at h ha ⊢
    omega
  · rwa [he]

theorem unreference_eq (hc : m.chunk? c = some chunk) :
    m.unreference c = match chunk.unreference.1 with
      | none => m.setChunk c chunk.unreference.2
      | some b => (m.setChunk c chunk.unreference.2).giveBack b := by
  cases hb : chunk.unreference.1 <;> simp [Memory.unreference, hc, hb]

theorem chunks_unreference (hc : m.chunk? c = some chunk) :
    (m.unreference c).chunks = (m.setChunk c chunk.unreference.2).chunks := by
  rw [unreference_eq hc]
  split <;> rfl

@[simp] theorem size_unreference (m : Memory) (c : ChunkRef) :
    (m.unreference c).chunks.size = m.chunks.size := by
  rcases hc : m.chunk? c with _ | chunk
  · simp only [Memory.unreference, hc]
  · rw [chunks_unreference hc, size_setChunk]

theorem chunk?_unreference (hc : m.chunk? c = some chunk) (c' : ChunkRef) :
    (m.unreference c).chunk? c' = if c = c' then some chunk.unreference.2 else m.chunk? c' := by
  rw [← chunk?_setChunk (lt_of_chunk? hc), chunk?, chunks_unreference hc]
  rfl

/-- The last reference takes the block out of the chunk, every other one is just taken off. -/
theorem Counts.unreference_cases (h : m.Counts (c :: refs)) (hc : m.chunk? c = some chunk) :
    (c ∉ refs ∧ ∃ b, chunk.block = some b ∧
        chunk.unreference = (some b, { chunk with references := 0, block := none })) ∨
      (c ∈ refs ∧
        chunk.unreference = (none, { chunk with references := chunk.references - 1 })) := by
  have hcount := h.count c chunk hc
  have hkept := (h.kept c chunk hc).2 (by simp)
  rw [List.count_cons_self] at hcount
  have hz : chunk.references ≠ 0 := fun e ↦ by simp [e] at hcount
  by_cases h1 : chunk.references = 1
  · obtain ⟨b, hb⟩ := Option.isSome_iff_exists.1 hkept
    have hnot : c ∉ refs := List.count_eq_zero.1 (by simp [h1] at hcount; omega)
    exact .inl ⟨hnot, b, hb, by simp [Chunk.unreference, h1, hb]⟩
  · have hone : chunk.references.toNat ≠ 1 := fun e ↦ h1 (UInt32.toNat_inj.1 e)
    have hm : c ∈ refs := List.count_pos_iff.1 (by omega)
    exact .inr ⟨hm, by simp [Chunk.unreference, hz, h1]⟩

theorem Counts.unreference (h : m.Counts (c :: refs)) : (m.unreference c).Counts refs := by
  obtain ⟨chunk, hc⟩ := exists_chunk (h.known c (by simp))
  have hcount := h.count c chunk hc
  rw [List.count_cons_self] at hcount
  constructor
  · intro c' hc'
    rw [chunks_unreference hc, size_setChunk]
    exact h.known c' (List.mem_cons_of_mem _ hc')
  · intro c' chunk' hc'
    rw [chunk?_unreference hc] at hc'
    split at hc'
    · subst c'
      cases hc'
      rcases h.unreference_cases hc with ⟨hn, b, -, he⟩ | ⟨hm, he⟩
      · simp [he, List.count_eq_zero.2 hn]
      · have hz : chunk.references ≠ 0 := fun e ↦ by simp [e] at hcount
        simp only [he, UInt32.toNat_pred hz, hcount]
        omega
    · rename_i hne
      rw [h.count c' chunk' hc', List.count_cons_of_ne hne]
  · intro c' chunk' hc'
    rw [chunk?_unreference hc] at hc'
    split at hc'
    · subst c'
      cases hc'
      rcases h.unreference_cases hc with ⟨hn, b, -, he⟩ | ⟨hm, he⟩
      · simp [he, hn]
      · simp [he, hm, (h.kept c chunk hc).2 (by simp)]
    · rename_i hne
      rw [h.kept c' chunk' hc', List.mem_cons]
      simp [Ne.symm hne]

theorem Counts.frees_iff (h : m.Counts (c :: refs)) : m.frees c ↔ c ∉ refs := by
  obtain ⟨chunk, hc⟩ := exists_chunk (h.known c (by simp))
  rcases h.unreference_cases hc with ⟨hn, b, -, he⟩ | ⟨hm, he⟩
  · simp [frees, hc, he, hn]
  · simp [frees, hc, he, hm]

theorem released_unreference (m : Memory) (c : ChunkRef) :
    (m.unreference c).pool.released = m.pool.released + (m.frees c).toNat ∧
      (m.unreference c).pool.acquired = m.pool.acquired := by
  rcases hc : m.chunk? c with _ | chunk
  · simp [Memory.unreference, frees, hc]
  · rw [unreference_eq hc]
    rcases hb : chunk.unreference.1 with _ | b
    · simp [frees, hc, hb, setChunk]
    · have hp := released_giveBack (m.setChunk c chunk.unreference.2) b
      simpa [frees, hc, hb, setChunk] using hp

theorem Balanced.unreference {loose : Nat} (h : m.Balanced loose) (c : ChunkRef) :
    (m.unreference c).Balanced loose := by
  rcases hc : m.chunk? c with _ | chunk
  · simpa [Memory.unreference, hc] using h
  · have hp := released_unreference m c
    have ha := alive_setChunk hc chunk.unreference.2
    have hb : chunk.unreference.2.block.isSome.toNat + (m.frees c).toNat =
        chunk.block.isSome.toNat := by
      simp only [frees, hc, Option.bind_some, Chunk.unreference]
      split
      · simp
      · split <;> simp
    simp only [Balanced, alive, chunks_unreference hc] at h ha ⊢
    omega

theorem Counts.perm {refs' : List ChunkRef} (h : m.Counts refs) (hp : refs.Perm refs') :
    m.Counts refs' where
  known c hc := h.known c (hp.mem_iff.2 hc)
  count c chunk hc := by rw [h.count c chunk hc, hp.count_eq]
  kept c chunk hc := by rw [h.kept c chunk hc, hp.mem_iff]

theorem Counts.of_chunks {m' : Memory} (h : m.Counts refs) (he : m'.chunks = m.chunks) :
    m'.Counts refs := by
  obtain ⟨pool, chunks⟩ := m'
  subst he
  exact ⟨h.known, h.count, h.kept⟩

end Memory
end ReadCache
