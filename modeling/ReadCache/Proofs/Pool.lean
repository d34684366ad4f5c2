import ReadCache.Proofs.FreeLists
import ReadCache.Proofs.Steps

namespace ReadCache

namespace Pool

/-- No request is too large, and each block that waits has the capacity of its list. -/
structure Filed (p : Pool) : Prop where
  unlimited : p.limit = none
  capacity : p.free.Holds fun capacity b ↦ b.capacity = capacity

variable {p : Pool}

theorem filed_new : ({} : Pool).Filed := ⟨rfl, FreeLists.holds_of_empty rfl⟩

theorem Filed.within (h : p.Filed) (size : UInt64) : p.overLimit size = false := by
  simp [overLimit, h.unlimited]

theorem Filed.acquire (h : p.Filed) (size : UInt64) (kind : BufferKind) :
    (p.acquire size kind).2.Filed := by
  refine ⟨?_, holds_acquire h.capacity size kind⟩
  rw [acquire_of_within (h.within size)]
  exact h.unlimited

theorem Filed.release (h : p.Filed) (b : Block) : (p.release b).2.Filed := by
  refine ⟨?_, holds_release h.capacity rfl⟩
  simp only [Pool.release]
  split <;> exact h.unlimited

theorem Filed.acquire_ok (h : p.Filed) {size : UInt64} {kind : BufferKind} {capacity : Nat}
    (hsize : size ≠ 0) (hc : kind.capacityFor? size.toNat = some capacity)
    (hlt : capacity < Block.capacityLimit) :
    ∃ b, (p.acquire size kind).1 = .ok b ∧ b.capacity = capacity := by
  rcases h.capacity.served hsize hc with ⟨b, he, hb⟩ | ⟨hle, -⟩
  · refine ⟨b, ?_, ?_⟩
    · rw [acquire_of_within (h.within size), he]
    · rcases hb with hb | ⟨-, rfl⟩
      · exact hb
      · rfl
  · exact absurd hlt (Nat.not_lt.2 hle)

end Pool

namespace Memory
variable {m : Memory}

theorem filed_acquire (h : m.pool.Filed) (size : UInt64) (kind : BufferKind) :
    (m.acquire size kind).2.pool.Filed := h.acquire size kind

theorem filed_giveBack (h : m.pool.Filed) (b : Block) : (m.giveBack b).pool.Filed := h.release b

theorem pool_reference (m : Memory) (c : ChunkRef) : (m.reference c).2.pool = m.pool := by
  unfold Memory.reference
  split <;> rfl

theorem pool_share (m : Memory) (c : ChunkRef) : (m.share c).pool = m.pool := by
  unfold Memory.share
  split <;> rfl

theorem filed_unreference (h : m.pool.Filed) (c : ChunkRef) : (m.unreference c).pool.Filed := by
  unfold Memory.unreference
  split
  · exact h
  · dsimp only
    split
    · exact h
    · exact h.release _

end Memory

section
variable {s s' : Shared}

theorem Shared.Drops.filed (hs : s.Drops s') (h : s.memory.pool.Filed) :
    s'.memory.pool.Filed := by
  cases hs with
  | retire c cause => exact Memory.filed_unreference h c
  | pass | detach | clear | discount => exact h

theorem Conduct.filed_acquire (h : s.memory.pool.Filed) (c : Conduct) (position : UInt64)
    (roundUp : Bool) : (c.acquire position roundUp s).2.memory.pool.Filed := by
  simp only [acquire, Engine.acquireFor]
  rcases c.reader.loadSize? position roundUp with _ | size
  · exact h
  · exact Memory.filed_acquire h size c.reader.bufferKind

theorem Stage.step_filed {k : ChunkId} {c : Conduct} {x x' : Stage} (h : s.memory.pool.Filed)
    (hs : x.step k c s = some (x', s')) : s'.memory.pool.Filed := by
  cases steps hs with
  | borrow | refuse => exact c.filed_acquire h _ _
  | fail => exact Memory.filed_giveBack h _
  | replace => exact Memory.filed_unreference h _
  | pass hq => exact (Pass.step_drops hq).filed h
  | _ => exact h

theorem Direct.step_filed {asked k : ChunkId} {c : Conduct} {x x' : Direct}
    (h : s.memory.pool.Filed) (hs : x.step asked k c s = some (x', s')) :
    s'.memory.pool.Filed := by
  cases steps hs with
  | borrow | refuse => exact c.filed_acquire h _ _
  | arrive => exact h
  | fail => exact Memory.filed_giveBack h _

theorem Call.step_filed {c : Conduct} {x x' : Call} (h : s.memory.pool.Filed)
    (hs : x.step c s = some (x', s')) : s'.memory.pool.Filed := by
  cases steps hs with
  | stage hq => exact Stage.step_filed h hq
  | take => exact Memory.pool_reference s.memory _ ▸ h
  | direct hq => exact Direct.step_filed h hq
  | invalidate hq => exact (Removal.step_drops hq).filed h
  | sweep hq => exact (Sweep.step_drops hq).filed h
  | evict hq => exact (Pass.step_drops hq).filed h
  | retry | exhaust | overflow => exact h

end

namespace Traffic
variable {t u : Traffic}

theorem step_filed {m : Move} (h : t.shared.memory.pool.Filed) (hs : t.step m = some u) :
    u.shared.memory.pool.Filed := by
  cases steps hs with
  | advance _ hstep => exact Call.step_filed h hstep
  | reference => exact Memory.pool_reference t.shared.memory _ ▸ h
  | share => exact Memory.pool_share t.shared.memory _ ▸ h
  | release => exact Memory.filed_unreference h _
  | start | refuse | closeReader | resetCounters => exact h

theorem filed_of_create? {settings : Store.Settings} {hash : ChunkId → UInt64}
    (h : create? settings hash = some t) : t.shared.memory.pool.Filed := by
  obtain ⟨store, -, rfl⟩ := Option.map_eq_some_iff.1 h
  exact Pool.filed_new

theorem filed_of_reaches {sane : Traffic → Prop} (h : t.shared.memory.pool.Filed)
    (hr : t.Reaches sane u) : u.shared.memory.pool.Filed := by
  induction hr with
  | refl => exact h
  | step m _ hs _ ih => exact step_filed ih hs

end Traffic
end ReadCache
