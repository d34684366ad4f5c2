import ReadCache.Pool.Basic

namespace ReadCache
namespace FreeLists

/-- What is true of every block that waits, in view of the capacity of its list. -/
def Holds (P : (capacity : Nat) → Block → Prop) (f : FreeLists) : Prop :=
  ∀ capacity blocks, (capacity, blocks) ∈ f.lists → ∀ b ∈ blocks, P capacity b

variable {P : Nat → Block → Prop} {f f' : FreeLists} {size : UInt64} {kind : BufferKind}

theorem holds_of_empty (h : f.lists = []) : f.Holds P := by
  intro capacity blocks hm
  rw [h] at hm
  cases hm

theorem Holds.waiting (h : f.Holds P) {capacity : Nat} {blocks : List Block}
    (hlist : f.lists.get? capacity = some blocks) : ∀ b ∈ blocks, P capacity b :=
  h capacity blocks (Bindings.mem_of_get?_some hlist)

theorem Holds.insert (h : f.Holds P) {capacity : Nat} {blocks : List Block}
    (hlists : f'.lists = f.lists.insert capacity blocks) (hblocks : ∀ b ∈ blocks, P capacity b) :
    f'.Holds P := by
  intro c l hm
  rw [hlists] at hm
  rcases Bindings.mem_or_mem_of_mem_insert hm with he | hm
  · cases he
    exact hblocks
  · exact h c l hm

theorem Holds.acquire (h : f.Holds P) (size : UInt64) (kind : BufferKind) :
    (f.acquire size kind).2.Holds P := by
  simp only [FreeLists.acquire]
  split
  · exact h
  split
  · exact h
  split
  · rename_i hlist
    exact h.insert rfl fun b hb ↦ h.waiting hlist b (List.mem_cons_of_mem _ hb)
  · unfold make
    split <;> exact h

theorem Holds.release (h : f.Holds P) {b : Block} (hb : P b.capacity b.clear) :
    (f.release b).Holds P := by
  simp only [FreeLists.release]
  split
  · exact h
  refine h.insert rfl fun b' hb' ↦ ?_
  rcases List.mem_cons.1 hb' with rfl | hb'
  · exact hb
  · cases hlist : f.lists.get? b.capacity with
    | none => simp [hlist] at hb'
    | some old =>
      rw [hlist] at hb'
      exact h.waiting hlist b' hb'

/-- A request comes to a block that has waited or to a new one, which no memory may have. -/
theorem Holds.served (h : f.Holds P) {capacity : Nat} (hsize : size ≠ 0)
    (hc : kind.capacityFor? size.toNat = some capacity) :
    (∃ b, (f.acquire size kind).1 = .ok b ∧
      (P capacity b ∨ capacity < Block.capacityLimit ∧ b = ⟨f.nextId, capacity, ByteArray.empty⟩)) ∨
    Block.capacityLimit ≤ capacity ∧ (f.acquire size kind).1 = .error .panic := by
  simp only [FreeLists.acquire, hsize, if_false, hc]
  split
  · rename_i b rest hlist
    exact .inl ⟨b, rfl, .inl (h.waiting hlist b List.mem_cons_self)⟩
  · unfold make
    split
    · exact .inl ⟨_, rfl, .inr ⟨‹_›, rfl⟩⟩
    · exact .inr ⟨Nat.le_of_not_lt ‹_›, rfl⟩

end FreeLists

namespace Pool
variable {P : Nat → Block → Prop} {p : Pool} {size : UInt64} {kind : BufferKind}

theorem acquire_of_over (h : p.overLimit size = true) :
    p.acquire size kind = (.error (.error (.bufferAllocation size "limit")), p) := by
  simp only [acquire, h, if_true]

theorem acquire_of_within (h : p.overLimit size = false) :
    p.acquire size kind = ((p.free.acquire size kind).1,
      { p with
        free := (p.free.acquire size kind).2
        acquired := p.acquired + (p.free.acquire size kind).1.isOk.toNat }) := by
  simp only [acquire, h, Bool.false_eq_true, if_false]
  split <;> rename_i he <;> rw [he] <;> rfl

theorem holds_acquire (h : p.free.Holds P) (size : UInt64) (kind : BufferKind) :
    (p.acquire size kind).2.free.Holds P := by
  cases hlimit : p.overLimit size with
  | true => rwa [acquire_of_over hlimit]
  | false =>
    rw [acquire_of_within hlimit]
    exact h.acquire size kind

theorem holds_release (h : p.free.Holds P) {b : Block} (hb : P b.capacity b.clear) :
    (p.release b).2.free.Holds P := by
  simp only [release]
  split
  · exact h.release hb
  · exact h

end Pool
end ReadCache
