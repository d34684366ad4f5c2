import Mathlib
import ReadCache.Proofs.FreeLists

namespace ReadCache

namespace Bindings
variable {K V : Type} [DecidableEq K]

theorem nodup_keys_insert {l : Bindings K V} (h : l.keys.Nodup) (k : K) (v : V) :
    (l.insert k v).keys.Nodup := by
  cases hk : l.get? k with
  | none =>
    have hfree := get?_eq_none_iff.1 hk
    rw [insert_of_get?_none v hk, keys, List.map_append, List.map_singleton,
      List.nodup_append_comm]
    exact List.nodup_cons.2 ⟨hfree, h⟩
  | some old =>
    obtain ⟨a, b, hl, hinsert, -⟩ := split_of_get?_some h hk
    rw [hinsert, keys]
    rw [hl, keys] at h
    simpa using h

end Bindings

def BufferKind.Suits : BufferKind → (size capacity : Nat) → Prop
  | standard, size, capacity => capacity = size
  | aligned, size, capacity => IsLeast {n | size ≤ n ∧ pageSize ∣ n} capacity

theorem BufferKind.capacityFor?_suits (kind : BufferKind) {size : Nat}
    (h : size + (pageSize - 1) < UInt64.size) :
    ∃ capacity, kind.capacityFor? size = some capacity ∧ kind.Suits size capacity ∧
      capacity ≤ size + (pageSize - 1) := by
  cases kind with
  | standard => exact ⟨size, rfl, rfl, Nat.le_add_right _ _⟩
  | aligned =>
    refine ⟨(size + (pageSize - 1)) / pageSize * pageSize, ?_, ⟨⟨?_, ?_⟩, ?_⟩, ?_⟩
    · simp only [capacityFor?, h, if_true]
    · simp only [pageSize]
      omega
    · exact Nat.dvd_mul_left _ _
    · rintro n ⟨hle, m, rfl⟩
      simp only [pageSize] at hle ⊢
      omega
    · exact Nat.div_mul_le_self _ _

namespace FreeLists

def idle (f : FreeLists) : List Block := f.lists.flatMap Prod.snd

/-- The list of a capacity is one stretch of all that waits, and only there a new list comes in. -/
theorem idle_split {f : FreeLists} (h : f.lists.keys.Nodup) (capacity : Nat) :
    ∃ a b, f.idle = a ++ (f.lists.get? capacity).getD [] ++ b ∧
      ∀ blocks, (f.lists.insert capacity blocks).flatMap Prod.snd = a ++ blocks ++ b := by
  cases hc : f.lists.get? capacity with
  | none =>
    refine ⟨f.idle, [], by simp, ?_⟩
    intro blocks
    rw [Bindings.insert_of_get?_none _ hc]
    simp [idle]
  | some old =>
    obtain ⟨a, b, hl, hinsert, -⟩ := Bindings.split_of_get?_some h hc
    refine ⟨a.flatMap Prod.snd, b.flatMap Prod.snd, ?_, ?_⟩
    · rw [idle, hl]
      simp
    · intro blocks
      rw [hinsert]
      simp

/-- Each block that waits is empty and in the one list of its capacity, and their bytes are counted
and within the limit. -/
structure Tidy (f : FreeLists) : Prop where
  keys : f.lists.keys.Nodup
  filed : f.Holds fun capacity b ↦ b.capacity = capacity ∧ b.bytes = ByteArray.empty
  retained : f.retainedBytes = (f.idle.map Block.capacity).sum
  limit : f.retainedBytes ≤ f.maxRetainedBytes.toNat

variable {f : FreeLists}

theorem Tidy.insert (h : f.Tidy) {f' : FreeLists} {capacity : Nat} {blocks : List Block}
    (hlists : f'.lists = f.lists.insert capacity blocks)
    (hfiled : f'.Holds fun capacity b ↦ b.capacity = capacity ∧ b.bytes = ByteArray.empty)
    (hretained : f'.retainedBytes = (f'.idle.map Block.capacity).sum)
    (hlimit : f'.retainedBytes ≤ f'.maxRetainedBytes.toNat) : f'.Tidy where
  keys := by
    rw [hlists]
    exact Bindings.nodup_keys_insert h.keys _ _
  filed := hfiled
  retained := hretained
  limit := hlimit

theorem tidy_new (max : UInt64) : Tidy { maxRetainedBytes := max } where
  keys := List.nodup_nil
  filed := holds_of_empty rfl
  retained := rfl
  limit := Nat.zero_le _

theorem Tidy.acquire_cases (h : f.Tidy) (size : UInt64) (kind : BufferKind) :
    (∃ failure, f.acquire size kind = (.error failure, f)) ∨
    ∃ b f', f.acquire size kind = (.ok b, f') ∧ f'.Tidy ∧
      f'.maxRetainedBytes = f.maxRetainedBytes ∧
      kind.capacityFor? size.toNat = some b.capacity ∧ b.bytes = ByteArray.empty ∧
      (f.idle.Perm (b :: f'.idle) ∧ f'.nextId = f.nextId ∨
        b.id = f.nextId ∧ f'.idle = f.idle ∧ f'.nextId = f.nextId + 1) := by
  unfold acquire
  split
  · exact .inl ⟨_, rfl⟩
  split
  · exact .inl ⟨_, rfl⟩
  rename_i capacity hcapacity
  obtain ⟨x, y, hidle, hinsert⟩ := idle_split h.keys capacity
  split
  · rename_i b rest hlist
    have hfiled := h.filed.waiting hlist
    obtain ⟨hb, hempty⟩ := hfiled b List.mem_cons_self
    rw [hlist, Option.getD_some] at hidle
    have hperm : f.idle.Perm (b :: (x ++ rest ++ y)) := by
      rw [hidle, List.append_assoc, List.append_assoc, List.cons_append]
      exact List.perm_middle
    have hsum := (hperm.map Block.capacity).sum_nat
    rw [List.map_cons, List.sum_cons, ← h.retained, hb] at hsum
    refine .inr ⟨b, _, rfl, ?_, rfl, hb ▸ hcapacity, hempty, .inl ⟨?_, rfl⟩⟩
    · have hlimit := h.limit
      refine h.insert rfl ?_ ?_ ?_
      · exact h.filed.insert rfl fun b' hb' ↦ hfiled b' (List.mem_cons_of_mem _ hb')
      · simp only [idle, hinsert]
        omega
      · exact Nat.le_trans (Nat.sub_le _ _) hlimit
    · have hlater : FreeLists.idle { f with
          lists := f.lists.insert capacity rest
          retainedBytes := f.retainedBytes - capacity } = x ++ rest ++ y := hinsert rest
      rw [hlater]
      exact hperm
  · unfold make
    split
    · exact .inr ⟨_, _, rfl, ⟨h.keys, h.filed, h.retained, h.limit⟩, rfl, hcapacity, rfl,
        .inr ⟨rfl, rfl, rfl⟩⟩
    · exact .inl ⟨_, rfl⟩

theorem Tidy.release_cases (h : f.Tidy) (b : Block) :
    (f.maxRetainedBytes.toNat < f.retainedBytes + b.capacity ∧ f.release b = f) ∨
    (f.retainedBytes + b.capacity ≤ f.maxRetainedBytes.toNat ∧ (f.release b).Tidy ∧
      (f.release b).maxRetainedBytes = f.maxRetainedBytes ∧
      (f.release b).idle.Perm (b.clear :: f.idle) ∧
      (f.release b).nextId = f.nextId) := by
  by_cases hlarge : f.maxRetainedBytes.toNat < f.retainedBytes + b.capacity
  · exact .inl ⟨hlarge, if_pos hlarge⟩
  have hrelease : f.release b = { f with
      lists := f.lists.insert b.capacity (b.clear :: (f.lists.get? b.capacity).getD [])
      retainedBytes := f.retainedBytes + b.capacity } := if_neg hlarge
  have hfits := Nat.le_of_not_lt hlarge
  obtain ⟨x, y, hidle, hinsert⟩ := idle_split h.keys b.capacity
  have hperm : (f.release b).idle.Perm (b.clear :: f.idle) := by
    rw [hrelease, idle, hinsert, hidle, List.append_assoc, List.append_assoc, List.cons_append]
    exact List.perm_middle
  refine .inr ⟨hfits, ?_, by rw [hrelease], hperm, by rw [hrelease]⟩
  refine h.insert (by rw [hrelease]) (h.filed.release ⟨rfl, rfl⟩) ?_ ?_
  · have hclear : b.clear.capacity = b.capacity := rfl
    rw [(hperm.map Block.capacity).sum_nat, List.map_cons, List.sum_cons, ← h.retained, hclear,
      hrelease]
    exact Nat.add_comm _ _
  · rw [hrelease]
    exact hfits

theorem Tidy.acquire_ok (h : f.Tidy) {size : UInt64} (kind : BufferKind) (hpos : 1 ≤ size.toNat)
    (hle : size.toNat ≤ Block.capacityLimit - pageSize) :
    ∃ b f', f.acquire size kind = (.ok b, f') ∧ b.bytes = ByteArray.empty ∧
      kind.Suits size.toNat b.capacity := by
  have hlimit : Block.capacityLimit = 9223372036854775808 := rfl
  have hpage : pageSize = 4096 := rfl
  have hword : size.toNat + (pageSize - 1) < UInt64.size := by
    simp only [UInt64.size]
    omega
  obtain ⟨capacity, hcapacity, hsuits, hbound⟩ := kind.capacityFor?_suits hword
  have hmade : capacity < Block.capacityLimit := by omega
  rcases h.acquire_cases size kind with ⟨failure, he⟩ | ⟨b, f', he, -, -, hb, hempty, -⟩
  · -- Nothing but a size of zero, or one that no memory has, goes without a block.
    have hzero : size ≠ 0 := by
      rintro rfl
      exact absurd hpos (by decide)
    simp only [acquire, hzero, if_false, hcapacity, make, hmade, if_true] at he
    split at he <;> cases he
  · rw [hcapacity] at hb
    cases hb
    exact ⟨b, f', he, hempty, hsuits⟩

end FreeLists

/-- The free lists and the blocks in hand, given out by them or made elsewhere. -/
structure Custody where
  free : FreeLists
  held : List Block := []

namespace Custody

/-- What can be done with the free lists and the blocks in hand. -/
inductive Use where
  | acquire (size : UInt64) (kind : BufferKind)
  /-- A block from elsewhere comes into a hand. -/
  | bring (capacity : Nat)
  /-- Somebody writes to a block, no more than it has room for. -/
  | write (i : Nat) (bytes : ByteArray)
  | release (i : Nat)
  /-- A block goes and is not given back. -/
  | lose (i : Nat)

def take (c : Custody) : Except Failure Block × FreeLists → Custody
  | (.ok b, free) => { free, held := b :: c.held }
  | (.error _, free) => { c with free }

def step (c : Custody) : Use → Custody
  | .acquire size kind => c.take (c.free.acquire size kind)
  | .bring capacity => c.take (c.free.make capacity)
  | .write i bytes =>
    match c.held[i]? with
    | none => c
    | some b =>
      if bytes.size ≤ b.capacity then { c with held := c.held.set i { b with bytes } } else c
  | .release i =>
    match c.held[i]? with
    | none => c
    | some b => { free := c.free.release b, held := c.held.eraseIdx i }
  | .lose i => { c with held := c.held.eraseIdx i }

def run (c : Custody) (uses : List Use) : Custody := uses.foldl step c

def ids (c : Custody) : List Nat := (c.free.idle ++ c.held).map Block.id

/-- The free lists are tidy, and no block is in two places. -/
structure Sound (max : UInt64) (c : Custody) : Prop where
  tidy : c.free.Tidy
  max_eq : c.free.maxRetainedBytes = max
  nodup : c.ids.Nodup
  below : ∀ id ∈ c.ids, id < c.free.nextId

variable {max : UInt64} {c : Custody}

theorem Sound.subperm (h : c.Sound max) {c' : Custody} (htidy : c'.free.Tidy)
    (hmax : c'.free.maxRetainedBytes = max) (hids : c'.ids.Subperm c.ids)
    (hnext : c'.free.nextId = c.free.nextId) : c'.Sound max where
  tidy := htidy
  max_eq := hmax
  nodup := by
    obtain ⟨l, hperm, hsub⟩ := hids
    exact hperm.nodup_iff.1 (h.nodup.sublist hsub)
  below := by
    intro id hid
    rw [hnext]
    exact h.below id (hids.subset hid)

theorem Sound.fresh (h : c.Sound max) {c' : Custody} (htidy : c'.free.Tidy)
    (hmax : c'.free.maxRetainedBytes = max) (hids : c'.ids.Perm (c.free.nextId :: c.ids))
    (hnext : c'.free.nextId = c.free.nextId + 1) : c'.Sound max where
  tidy := htidy
  max_eq := hmax
  nodup := by
    have hnew : c.free.nextId ∉ c.ids := by
      intro hmem
      exact Nat.lt_irrefl _ (h.below _ hmem)
    exact hids.nodup_iff.2 (List.nodup_cons.2 ⟨hnew, h.nodup⟩)
  below := by
    intro id hid
    rcases List.mem_cons.1 (hids.subset hid) with rfl | hid
    · omega
    · have := h.below id hid
      omega

theorem sound_new (max : UInt64) : Sound max { free := { maxRetainedBytes := max } } where
  tidy := FreeLists.tidy_new max
  max_eq := rfl
  nodup := List.nodup_nil
  below := by
    intro id hid
    cases hid

theorem Sound.acquire (h : c.Sound max) (size : UInt64) (kind : BufferKind) :
    (c.step (.acquire size kind)).Sound max := by
  simp only [step]
  obtain ⟨failure, he⟩ | ⟨b, f', he, htidy, hmax, -, -, hfrom⟩ := h.tidy.acquire_cases size kind
  · rw [he]
    exact h
  rw [he]
  replace hmax := hmax.trans h.max_eq
  have hids : ((f'.idle ++ b :: c.held).map Block.id).Perm (b.id :: (f'.idle ++ c.held).map
      Block.id) := by
    rw [← List.map_cons]
    exact List.perm_middle.map _
  -- The block has waited, or it is a new one.
  obtain ⟨hidle, hnext⟩ | ⟨hid, hidle, hnext⟩ := hfrom
  · refine h.subperm htidy hmax (List.Perm.subperm ?_) hnext
    exact hids.trans ((hidle.append_right c.held).map Block.id).symm
  · refine h.fresh htidy hmax ?_ hnext
    rw [hid, hidle] at hids
    simp only [ids, take, hidle]
    exact hids

theorem Sound.bring (h : c.Sound max) (capacity : Nat) :
    (c.step (.bring capacity)).Sound max := by
  simp only [step, FreeLists.make]
  split
  · refine h.fresh ⟨h.tidy.keys, h.tidy.filed, h.tidy.retained, h.tidy.limit⟩ h.max_eq ?_ rfl
    exact List.perm_middle.map Block.id
  · exact h

theorem Sound.write (h : c.Sound max) (i : Nat) (bytes : ByteArray) :
    (c.step (.write i bytes)).Sound max := by
  simp only [step]
  split
  · exact h
  split
  · rename_i b hb _
    obtain ⟨hi, rfl⟩ := List.getElem?_eq_some_iff.1 hb
    refine h.subperm h.tidy h.max_eq (List.Perm.subperm (List.Perm.of_eq ?_)) rfl
    have hsame : (c.held.map Block.id).set i c.held[i].id = c.held.map Block.id := by
      rw [← List.getElem_map Block.id, List.set_getElem_self]
      simpa using hi
    simp only [ids, List.map_append, List.map_set, hsame]
  · exact h

theorem Sound.release (h : c.Sound max) (i : Nat) : (c.step (.release i)).Sound max := by
  simp only [step]
  split
  · exact h
  rename_i b hb
  obtain ⟨hi, rfl⟩ := List.getElem?_eq_some_iff.1 hb
  have hheld : c.held.Perm (c.held[i] :: c.held.eraseIdx i) :=
    (List.getElem_cons_eraseIdx_perm hi).symm
  obtain ⟨-, he⟩ | ⟨-, htidy, hmax, hidle, hnext⟩ := h.tidy.release_cases c.held[i]
  · rw [he]
    refine h.subperm h.tidy h.max_eq ?_ rfl
    exact ((List.eraseIdx_sublist _ _).append_left _).map _ |>.subperm
  · refine h.subperm htidy (hmax.trans h.max_eq) (List.Perm.subperm ?_) hnext
    have hpair : ((c.free.release c.held[i]).idle ++ c.held.eraseIdx i).Perm
        (c.free.idle ++ c.held[i].clear :: c.held.eraseIdx i) :=
      (hidle.append_right _).trans List.perm_middle.symm
    refine (hpair.map Block.id).trans (List.Perm.symm ?_)
    have hsame := (hheld.append_left c.free.idle).map Block.id
    simpa [ids, Block.clear] using hsame

theorem Sound.lose (h : c.Sound max) (i : Nat) : (c.step (.lose i)).Sound max := by
  refine h.subperm h.tidy h.max_eq ?_ rfl
  exact ((List.eraseIdx_sublist _ _).append_left _).map _ |>.subperm

theorem Sound.step (h : c.Sound max) (use : Use) : (c.step use).Sound max := by
  cases use with
  | acquire size kind => exact h.acquire size kind
  | bring capacity => exact h.bring capacity
  | write i bytes => exact h.write i bytes
  | release i => exact h.release i
  | lose i => exact h.lose i

theorem Sound.run (h : c.Sound max) (uses : List Use) : (c.run uses).Sound max := by
  induction uses generalizing c with
  | nil => exact h
  | cons use uses ih => exact ih (h.step use)

theorem Sound.not_idle (h : c.Sound max) {b : Block} (hb : b ∈ c.held) :
    b.id ∉ c.free.idle.map Block.id := by
  intro hidle
  have hids := h.nodup
  rw [ids, List.map_append, List.nodup_append] at hids
  exact hids.2.2 _ hidle _ (List.mem_map_of_mem hb) rfl

theorem Sound.kept_iff (h : c.Sound max) {b : Block} (hb : b ∈ c.held) :
    b.id ∈ (c.free.release b).idle.map Block.id ↔
      c.free.retainedBytes + b.capacity ≤ max.toNat := by
  rw [← h.max_eq]
  obtain ⟨hlarge, he⟩ | ⟨hfits, -, -, hidle, -⟩ := h.tidy.release_cases b
  · rw [he]
    exact iff_of_false (h.not_idle hb) (Nat.not_le_of_lt hlarge)
  · refine iff_of_true ?_ hfits
    exact (hidle.map Block.id).symm.subset List.mem_cons_self

theorem Sound.retained_add_le (h : c.Sound max) {b : Block} (hb : b ∈ c.held) :
    c.free.retainedBytes + b.capacity ≤ ((c.free.idle ++ c.held).map Block.capacity).sum := by
  have hone := List.le_sum_of_mem (List.mem_map_of_mem (f := Block.capacity) hb)
  rw [h.tidy.retained, List.map_append, List.sum_append]
  omega

/-- After any requests, writes and returns the bytes that wait are counted and within the limit,
each block that waits is empty and in the one list of its capacity, and no block is in two places.
Every request that a machine can have is served with an empty block of the capacity it comes to, one
for no bytes changes nothing, and what is given back is kept just if the limit has room for it. -/
theorem free_lists_consistent (max : UInt64) (uses : List Use) :
    let c := run { free := { maxRetainedBytes := max } } uses
    c.free.retainedBytes = (c.free.idle.map Block.capacity).sum ∧
    c.free.retainedBytes ≤ max.toNat ∧
    (∀ capacity blocks, (capacity, blocks) ∈ c.free.lists →
      ∀ b ∈ blocks, b.capacity = capacity ∧ b.bytes = ByteArray.empty) ∧
    c.ids.Nodup ∧
    (∀ (size : UInt64) (kind : BufferKind), 1 ≤ size.toNat →
      size.toNat ≤ Block.capacityLimit - pageSize →
      ∃ b f', c.free.acquire size kind = (.ok b, f') ∧ b.bytes = ByteArray.empty ∧
        kind.Suits size.toNat b.capacity) ∧
    (∀ kind, c.free.acquire 0 kind = (.error (.error (FreeLists.zeroSize 0)), c.free)) ∧
    ∀ b ∈ c.held,
      (b.id ∈ (c.free.release b).idle.map Block.id ↔
        c.free.retainedBytes + b.capacity ≤ max.toNat) ∧
      (c.free.retainedBytes + b.capacity ≤ max.toNat →
        (c.free.release b).idle.Perm (b.clear :: c.free.idle)) ∧
      (max.toNat < c.free.retainedBytes + b.capacity → c.free.release b = c.free) ∧
      (((c.free.idle ++ c.held).map Block.capacity).sum < UInt64.size →
        c.free.retainedBytes + b.capacity < UInt64.size) := by
  intro c
  have h : c.Sound max := (sound_new max).run uses
  refine ⟨h.tidy.retained, ?_, h.tidy.filed, h.nodup, ?_, fun kind ↦ rfl, ?_⟩
  · rw [← h.max_eq]
    exact h.tidy.limit
  · intro size kind hpos hle
    exact h.tidy.acquire_ok kind hpos hle
  intro b hb
  have hcases := h.tidy.release_cases b
  rw [h.max_eq] at hcases
  refine ⟨h.kept_iff hb, ?_, ?_, ?_⟩
  · intro hfits
    obtain ⟨hlarge, -⟩ | ⟨-, -, -, hidle, -⟩ := hcases
    · omega
    · exact hidle
  · intro hlarge
    obtain ⟨-, he⟩ | ⟨hfits, -⟩ := hcases
    · exact he
    · omega
  · intro htotal
    exact Nat.lt_of_le_of_lt (h.retained_add_le hb) htotal

/-- Two blocks of one capacity, one recycled and one too many for the limit. -/
example :
    let c := run { free := { maxRetainedBytes := 4096 } }
      [.acquire 100 .aligned, .acquire 4096 .standard, .release 0, .release 0,
        .acquire 4000 .aligned, .write 0 ⟨#[7]⟩, .release 0]
    (c.free.retainedBytes, c.ids, c.free.nextId) = (4096, [1], 2) := by decide

end Custody
end ReadCache
