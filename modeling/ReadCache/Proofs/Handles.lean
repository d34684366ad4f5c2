import ReadCache.Proofs.References

namespace ReadCache

theorem UInt32.ofNat_ne {n k : Nat} (hn : n < UInt32.size) (hk : k < UInt32.size) (hne : n ≠ k) :
    UInt32.ofNat n ≠ .ofNat k := by
  intro he
  have hnat := congrArg UInt32.toNat he
  rw [UInt32.toNat_ofNat_of_lt' hn, UInt32.toNat_ofNat_of_lt' hk] at hnat
  exact hne hnat

namespace Chunk
variable (b : Block) (offset : UInt64) {n : Nat}

def counted (n : Nat) : Chunk := { ofBlock b offset with references := .ofNat n }

def spent : Chunk := { ofBlock b offset with references := 0, block := none }

theorem counted_add_size (n : Nat) : counted b offset (n + UInt32.size) = counted b offset n := by
  have hcount : UInt32.ofNat (n + UInt32.size) = .ofNat n := by
    refine UInt32.toNat_inj.1 ?_
    rw [UInt32.toNat_ofNat', UInt32.toNat_ofNat']
    exact Nat.add_mod_right n UInt32.size
  rw [counted, hcount, counted]

theorem share_counted (n : Nat) : (counted b offset n).share = counted b offset (n + 1) := by
  simp only [Chunk.share, counted, UInt32.ofNat_add]
  rfl

theorem reference_counted (hpos : 0 < n) (hn : n < UInt32.size) :
    (counted b offset n).reference =
      if n + 1 < UInt32.size then (.ok true, counted b offset (n + 1))
      else (.error .panic, counted b offset n) := by
  have hzero : UInt32.ofNat n ≠ 0 := UInt32.ofNat_ne hn (by decide) (Nat.ne_of_gt hpos)
  simp only [Chunk.reference, counted, hzero, if_false, UInt32.toNat_ofNat_of_lt' hn,
    UInt32.ofNat_add]
  rfl

theorem unreference_counted (hpos : 1 < n) (hn : n < UInt32.size) :
    (counted b offset n).unreference = (none, counted b offset (n - 1)) := by
  have hzero : UInt32.ofNat n ≠ 0 := UInt32.ofNat_ne hn (by decide) (by omega : n ≠ 0)
  have hone : UInt32.ofNat n ≠ 1 := UInt32.ofNat_ne hn (by decide) (by omega : n ≠ 1)
  have hless : UInt32.ofNat n - 1 = .ofNat (n - 1) := by
    refine UInt32.toNat_inj.1 ?_
    rw [UInt32.toNat_pred hzero, UInt32.toNat_ofNat_of_lt' hn,
      UInt32.toNat_ofNat_of_lt' (by omega)]
  simp only [Chunk.unreference, counted, hzero, hone, if_false, hless]

theorem unreference_counted_one :
    (counted b offset 1).unreference = (some b, spent b offset) := rfl

theorem view?_counted (hpos : 0 < n) (hn : n < UInt32.size) :
    (counted b offset n).view? = some b.bytes :=
  if_neg (UInt32.ofNat_ne hn (by decide) (Nat.ne_of_gt hpos))

end Chunk

namespace Memory
variable (m : Memory) (b : Block) (offset : UInt64) (chunk : Chunk) {n : Nat}

def withLast : Memory := { m with chunks := m.chunks.push chunk }

theorem chunk?_withLast : (m.withLast chunk).chunk? m.chunks.size = some chunk :=
  Array.getElem?_push_size

theorem setChunk_withLast (chunk' : Chunk) :
    (m.withLast chunk).setChunk m.chunks.size chunk' = m.withLast chunk' := by
  simp [withLast, setChunk, Array.setIfInBounds, Array.set_push]

theorem reference_withLast : (m.withLast chunk).reference m.chunks.size =
    (chunk.reference.1, m.withLast chunk.reference.2) := by
  rw [Memory.reference, chunk?_withLast]
  simp only [setChunk_withLast]

theorem share_withLast : (m.withLast chunk).share m.chunks.size = m.withLast chunk.share := by
  rw [Memory.share, chunk?_withLast]
  simp only [setChunk_withLast]

theorem view?_withLast : (m.withLast chunk).view? m.chunks.size = chunk.view? := by
  rw [Memory.view?, chunk?_withLast, Option.bind_some]

/-- The memory while `n` references to its last chunk are held: with the last one the block goes. -/
def holding : (n : Nat) → Memory
  | 0 => (m.withLast (.spent b offset)).giveBack b
  | n + 1 => m.withLast (.counted b offset (n + 1))

theorem holding_of_pos (h : 0 < n) : m.holding b offset n = m.withLast (.counted b offset n) := by
  cases n with
  | zero => cases h
  | succ n => rfl

theorem reference_holding (hn : n < UInt32.size) :
    (m.holding b offset n).reference m.chunks.size =
      if n = 0 then (.ok false, m.holding b offset 0)
      else if n + 1 < UInt32.size then (.ok true, m.holding b offset (n + 1))
      else (.error .panic, m.holding b offset n) := by
  rcases Nat.eq_zero_or_pos n with rfl | hpos
  · exact reference_withLast { m with pool := (m.pool.release b).2 } (.spent b offset)
  · rw [holding_of_pos m b offset hpos, reference_withLast, Chunk.reference_counted b offset hpos hn,
      if_neg (Nat.ne_of_gt hpos)]
    split <;> rfl

theorem unreference_holding (hpos : 0 < n) (hn : n < UInt32.size) :
    (m.holding b offset n).unreference m.chunks.size = m.holding b offset (n - 1) := by
  rw [holding_of_pos m b offset hpos, unreference_eq (chunk?_withLast _ _), setChunk_withLast]
  by_cases hone : n = 1
  · rw [hone, Chunk.unreference_counted_one]
    rfl
  · rw [Chunk.unreference_counted b offset (by omega) hn, holding_of_pos m b offset (by omega)]

end Memory

/-- A chunk with all that hold it: the table, which has its first reference, and handles. -/
structure Handles where
  memory : Memory
  chunk : ChunkRef
  /-- Does the table hold it still? -/
  tabled : Bool
  live : Nat

namespace Handles

/-- What can be done with a chunk that is loaded, by whomever, each in one step on the count: a
reference is asked for, a handle is made from another one, a handle is dropped, or the table gives
the chunk up. -/
inductive Use where
  | reference
  | clone
  | drop
  | retire
  deriving DecidableEq, Repr

def start (m : Memory) (b : Block) (offset : UInt64) (tabled : Bool) : Handles :=
  let (chunk, memory) := m.adopt b offset
  { memory, chunk, tabled, live := (!tabled).toNat }

/-- Only who is there can be cloned, dropped or give the chunk up. -/
def step (h : Handles) : Use → Handles
  | .reference =>
    match h.memory.reference h.chunk with
    | (.ok true, memory) => { h with memory, live := h.live + 1 }
    | (_, memory) => { h with memory }
  | .clone =>
    if h.live = 0 then h else { h with memory := h.memory.share h.chunk, live := h.live + 1 }
  | .drop =>
    if h.live = 0 then h else { h with memory := h.memory.unreference h.chunk, live := h.live - 1 }
  | .retire =>
    if h.tabled then { h with memory := h.memory.unreference h.chunk, tabled := false } else h

def run (h : Handles) (uses : List Use) : Handles := uses.foldl step h

def held (h : Handles) : Nat := h.tabled.toNat + h.live

/-- Whoever has a handle can read the bytes of the block, which has not gone back to the pool. -/
def Safe (h : Handles) (b : Block) (pool : Pool) : Prop :=
  h.live ≠ 0 → h.memory.view? h.chunk = some b.bytes ∧ h.memory.pool = pool ∧
    ∃ chunk, h.memory.chunk? h.chunk = some chunk ∧ 1 ≤ chunk.references.toNat ∧
      chunk.block = some b

/-- The count is what is held. -/
structure Counted (h : Handles) (m : Memory) (b : Block) (offset : UInt64) : Prop where
  chunk : h.chunk = m.chunks.size
  memory : h.memory = m.holding b offset h.held
  fits : h.held < UInt32.size

variable {h : Handles} {m : Memory} {b : Block} {offset : UInt64}

theorem counted_start (m : Memory) (b : Block) (offset : UInt64) (tabled : Bool) :
    (start m b offset tabled).Counted m b offset where
  chunk := rfl
  memory := by cases tabled <;> rfl
  fits := by
    have hone : (start m b offset tabled).held = 1 := by cases tabled <;> rfl
    rw [hone]
    decide

theorem Counted.reference (hc : h.Counted m b offset) : (h.step .reference).Counted m b offset := by
  have href := m.reference_holding b offset hc.fits
  rw [← hc.memory, ← hc.chunk] at href
  by_cases hnone : h.held = 0
  · rw [if_pos hnone, ← hnone, ← hc.memory] at href
    rw [step, href]
    exact hc
  by_cases hroom : h.held + 1 < UInt32.size
  · rw [if_neg hnone, if_pos hroom] at href
    rw [step, href]
    exact ⟨hc.chunk, rfl, hroom⟩
  · rw [if_neg hnone, if_neg hroom] at href
    rw [step, href]
    exact hc

theorem Counted.unreference (hc : h.Counted m b offset) (hpos : 0 < h.held) {h' : Handles}
    (hchunk : h'.chunk = h.chunk) (hmemory : h'.memory = h.memory.unreference h.chunk)
    (hheld : h'.held + 1 = h.held) : h'.Counted m b offset where
  chunk := hchunk.trans hc.chunk
  memory := by
    rw [hmemory, hc.memory, hc.chunk, m.unreference_holding b offset hpos hc.fits, ← hheld,
      Nat.add_sub_cancel]
  fits := by
    have hfits := hc.fits
    omega

theorem Counted.drop (hc : h.Counted m b offset) : (h.step .drop).Counted m b offset := by
  by_cases hlive : h.live = 0
  · rwa [step, if_pos hlive]
  · have hheld : h.tabled.toNat + (h.live - 1) + 1 = h.held := by
      simp only [held]
      omega
    rw [step, if_neg hlive]
    exact hc.unreference (by omega) rfl rfl hheld

theorem Counted.retire (hc : h.Counted m b offset) : (h.step .retire).Counted m b offset := by
  cases htabled : h.tabled with
  | false => rwa [step, htabled, if_neg Bool.false_ne_true]
  | true =>
    have hheld : 0 + h.live + 1 = h.held := by
      simp only [held, htabled, Bool.toNat_true]
      omega
    rw [step, htabled, if_pos rfl]
    exact hc.unreference (by omega) rfl rfl hheld

theorem step_clone {n : Nat} (hchunk : h.chunk = m.chunks.size)
    (hmemory : h.memory = m.withLast (.counted b offset n)) (hlive : h.live ≠ 0) :
    h.step .clone =
      { h with memory := m.withLast (.counted b offset (n + 1)), live := h.live + 1 } := by
  rw [step, if_neg hlive, hmemory, hchunk, m.share_withLast, Chunk.share_counted]

theorem Counted.step_clone (hc : h.Counted m b offset) (hlive : h.live ≠ 0) :
    h.step .clone =
      { h with memory := m.withLast (.counted b offset (h.held + 1)), live := h.live + 1 } := by
  have hpos : 0 < h.held := Nat.lt_of_lt_of_le (Nat.pos_of_ne_zero hlive) (Nat.le_add_left _ _)
  exact Handles.step_clone hc.chunk (hc.memory.trans (m.holding_of_pos b offset hpos)) hlive

theorem Counted.clone (hc : h.Counted m b offset) (hroom : h.held + 1 < UInt32.size) :
    (h.step .clone).Counted m b offset := by
  by_cases hlive : h.live = 0
  · rwa [step, if_pos hlive]
  · rw [hc.step_clone hlive]
    exact ⟨hc.chunk, rfl, hroom⟩

theorem Counted.step (hc : h.Counted m b offset) (use : Use)
    (hroom : use = .clone → h.held + 1 < UInt32.size) : (h.step use).Counted m b offset := by
  cases use with
  | reference => exact hc.reference
  | clone => exact hc.clone (hroom rfl)
  | drop => exact hc.drop
  | retire => exact hc.retire

theorem Counted.safe (hc : h.Counted m b offset) : h.Safe b m.pool := by
  intro hlive
  have hpos : 0 < h.held := by
    simp only [held]
    omega
  rw [hc.memory, hc.chunk, Memory.holding_of_pos m b offset hpos]
  refine ⟨?_, rfl, _, m.chunk?_withLast _, ?_, rfl⟩
  · rw [Memory.view?_withLast, Chunk.view?_counted b offset hpos hc.fits]
  · rw [Chunk.counted, UInt32.toNat_ofNat_of_lt' hc.fits]
    exact hpos

theorem Counted.not_safe_clone (hc : h.Counted m b offset) (hfull : h.held + 1 = UInt32.size) :
    ¬ (h.step .clone).Safe b m.pool := by
  have hlive : h.live ≠ 0 := by
    intro hnone
    have hmost := h.tabled.toNat_le
    simp only [held, hnone, UInt32.size] at hfull
    omega
  -- The count is back at zero, where nothing can be read.
  rw [hc.step_clone hlive, hfull]
  intro hsafe
  obtain ⟨hview, -⟩ := hsafe (Nat.succ_ne_zero _)
  rw [hc.chunk, Memory.view?_withLast] at hview
  cases hview

theorem Counted.run (hc : h.Counted m b offset) (uses : List Use)
    (hroom : ∀ before, before ++ [.clone] <+: uses → (h.run before).held + 1 < UInt32.size) :
    (h.run uses).Counted m b offset := by
  induction uses generalizing h with
  | nil => exact hc
  | cons use uses ih =>
    refine ih (hc.step use ?_) ?_
    · rintro rfl
      exact hroom [] (List.prefix_append [Use.clone] uses)
    · intro before hbefore
      exact hroom (use :: before) (List.cons_prefix_cons.2 ⟨rfl, hbefore⟩)

theorem Counted.room_of_safe (hc : h.Counted m b offset) {uses before : List Use}
    (hsafe : ∀ before, before <+: uses → (h.run before).Safe b m.pool)
    (hbefore : before ++ [.clone] <+: uses) : (h.run before).held + 1 < UInt32.size := by
  induction uses generalizing h before with
  | nil => simp at hbefore
  | cons use uses ih =>
    -- A clone upon a full count leaves a state that is not safe, so there was room for it.
    have hroom : use = .clone → h.held + 1 < UInt32.size := by
      rintro rfl
      refine Nat.lt_of_le_of_ne hc.fits fun hfull ↦ hc.not_safe_clone hfull ?_
      exact hsafe [.clone] (List.prefix_append [Use.clone] uses)
    cases before with
    | nil => exact hroom (List.cons_prefix_cons.1 hbefore).1.symm
    | cons first before =>
      obtain ⟨rfl, hrest⟩ := List.cons_prefix_cons.1 hbefore
      refine ih (hc.step first hroom) (fun before hbefore ↦ ?_) hrest
      exact hsafe (first :: before) (List.cons_prefix_cons.2 ⟨rfl, hbefore⟩)

/-- The handles of one chunk are safe after each step of a run, with the bytes to read and their
memory not given back, just if none was made from another one while `2 ^ 32 - 1` references were
held. -/
theorem safe_iff_no_clone_at_limit (m : Memory) (b : Block) (offset : UInt64) (tabled : Bool)
    (uses : List Use) :
    let h := start m b offset tabled
    (∀ before, before ++ [.clone] <+: uses → (h.run before).held + 1 < UInt32.size) ↔
      ∀ before, before <+: uses → (h.run before).Safe b m.pool := by
  intro h
  have hc : h.Counted m b offset := counted_start m b offset tabled
  constructor
  · intro hroom before hbefore
    exact (hc.run before fun _ hfirst ↦ hroom _ (hfirst.trans hbefore)).safe
  · intro hsafe before hbefore
    exact hc.room_of_safe hsafe hbefore

theorem run_clones {n : Nat} (hchunk : h.chunk = m.chunks.size)
    (hmemory : h.memory = m.withLast (.counted b offset n)) (hlive : h.live ≠ 0) (k : Nat) :
    h.run (List.replicate k .clone) =
      { h with memory := m.withLast (.counted b offset (n + k)), live := h.live + k } := by
  induction k generalizing h n with
  | zero =>
    rw [Nat.add_zero, Nat.add_zero, ← hmemory]
    rfl
  | succ k ih =>
    rw [List.replicate_succ]
    change (h.step .clone).run _ = _
    rw [step_clone hchunk hmemory hlive]
    refine (ih (h := { h with
      memory := m.withLast (.counted b offset (n + 1)), live := h.live + 1 })
      hchunk rfl (Nat.succ_ne_zero _)).trans ?_
    rw [Nat.add_right_comm n, Nat.add_right_comm h.live]
    rfl

/-- A reference is asked for and cloned until the count is back at zero: then nobody can read the
bytes any more. With one clone more, the first handle that is dropped frees the memory of all
others, and the pool gives it to the next who asks. -/
theorem clones_free_memory_in_use :
    let b : Block := { id := 7, capacity := 3, bytes := ⟨#[1, 2, 3]⟩ }
    let h := start { pool := { acquired := 1 } } b 0 true
    let full := h.run (.reference :: List.replicate (UInt32.size - 2) .clone)
    let freed := full.run [.clone, .drop]
    full.live = UInt32.size - 1 ∧ full.memory.view? full.chunk = none ∧
      freed.live = UInt32.size - 1 ∧ freed.memory.pool.released = 1 ∧
      (freed.memory.acquire 3 .standard).1 = .ok b.clear := by
  -- The number of clones stays a variable: nothing below counts up to it.
  obtain ⟨k, hk⟩ : ∃ k, k + 2 = UInt32.size := ⟨UInt32.size - 2, by decide⟩
  rw [← hk, Nat.add_sub_cancel]
  intro b h full freed
  let m : Memory := { pool := { acquired := 1 } }
  have hwrap : Chunk.counted b 0 (2 + k) = .counted b 0 0 := by
    rw [Nat.add_comm, hk, ← Chunk.counted_add_size b 0 0, Nat.zero_add]
  have hfull : full = { h with memory := m.withLast (.counted b 0 0), live := 1 + k } := by
    rw [← hwrap]
    exact run_clones (h := h.step .reference) rfl rfl Nat.one_ne_zero k
  have hclone : full.step .clone = { h with memory := m.holding b 0 1, live := 2 + k } := by
    rw [hfull, step_clone rfl rfl (show 1 + k ≠ 0 by omega), Nat.add_right_comm]
    rfl
  have hfreed : freed = { h with memory := m.holding b 0 0, live := 1 + k } := by
    change (full.step .clone).step .drop = _
    rw [hclone, step, if_neg (show 2 + k ≠ 0 by omega)]
    change Handles.mk ((m.holding b 0 1).unreference m.chunks.size) _ _ _ = _
    rw [m.unreference_holding b 0 Nat.one_pos (by decide), show 1 + k = 2 + k - 1 by omega]
  rw [hfull, hfreed]
  have hlive : 1 + k = k + 2 - 1 := by omega
  exact ⟨hlive, rfl, hlive, rfl, rfl⟩

end Handles
end ReadCache
