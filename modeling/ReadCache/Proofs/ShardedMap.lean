import Mathlib
import ReadCache.ShardedMap

namespace ReadCache

theorem isLeast_powerOfTwoFrom (asked : Nat) :
    IsLeast {n | max 1 asked ≤ n ∧ ∃ e, n = 2 ^ e} (powerOfTwoFrom asked) := by
  unfold powerOfTwoFrom
  split
  · rename_i hone
    constructor
    · exact ⟨by omega, 0, rfl⟩
    intro n hn
    exact Nat.le_trans (Nat.le_max_left _ _) hn.1
  · rename_i hmore
    have hlog : asked - 1 < 2 ^ ((asked - 1).log2 + 1) := Nat.lt_log2_self
    have hlow : 2 ^ (asked - 1).log2 ≤ asked - 1 := Nat.log2_self_le (by omega)
    refine ⟨⟨?_, (asked - 1).log2 + 1, rfl⟩, ?_⟩
    · change max 1 asked ≤ 2 ^ ((asked - 1).log2 + 1)
      omega
    · rintro n ⟨hn, e, rfl⟩
      have hlt : 2 ^ (asked - 1).log2 < 2 ^ e := by omega
      exact Nat.pow_le_pow_right (by decide) ((Nat.pow_lt_pow_iff_right (by decide)).1 hlt)

theorem le_powerOfTwoFrom (n : Nat) : n ≤ powerOfTwoFrom n :=
  Nat.le_trans (Nat.le_max_right _ _) (isLeast_powerOfTwoFrom n).1.1

theorem powerOfTwoFrom_pos (n : Nat) : 0 < powerOfTwoFrom n :=
  Nat.le_trans (Nat.le_max_left _ _) (isLeast_powerOfTwoFrom n).1.1

namespace ShardedMap
variable {K V : Type}

/-- Every binding is in the shard of its key, and no key is bound twice. -/
structure Proper (m : ShardedMap K V) : Prop where
  shards_pos : 0 < m.shardCount
  home : ∀ i, ∀ b ∈ m.shard i, m.home b.1 = i
  nodup : (m.toList.map Prod.fst).Nodup

theorem toList_empty (hash : K → UInt64) (asked : Nat) :
    (empty hash asked : ShardedMap K V).toList = [] := by
  simp [empty, toList]

theorem proper_empty (hash : K → UInt64) (asked : Nat) :
    (empty hash asked : ShardedMap K V).Proper where
  shards_pos := by simpa [empty, shardCount] using powerOfTwoFrom_pos asked
  home i b hb := by
    have hnil : (empty hash asked : ShardedMap K V).shard i = [] := by
      simp only [empty, shard, Array.getD_eq_getD_getElem?, Array.getElem?_replicate]
      split <;> rfl
    rw [hnil] at hb
    cases hb
  nodup := by simp [toList_empty]

theorem home_lt {m : ShardedMap K V} (h : 0 < m.shardCount) (k : K) : m.home k < m.shardCount := by
  have hle : m.home k ≤ m.shardCount - 1 := Nat.and_le_right
  omega

@[simp] theorem shardCount_setShard (m : ShardedMap K V) (i : Nat) (l : Bindings K V) :
    (m.setShard i l).shardCount = m.shardCount := by simp [setShard, shardCount]

@[simp] theorem home_setShard (m : ShardedMap K V) (i : Nat) (l : Bindings K V) (k : K) :
    (m.setShard i l).home k = m.home k := by simp [home, setShard, shardCount]

theorem shard_setShard_self {m : ShardedMap K V} {i : Nat} (h : i < m.shardCount)
    (l : Bindings K V) : (m.setShard i l).shard i = l := by
  simp only [shardCount] at h
  simp [shard, setShard, h]

theorem shard_setShard_ne (m : ShardedMap K V) {i j : Nat} (l : Bindings K V) (h : i ≠ j) :
    (m.setShard i l).shard j = m.shard j := by
  simp [shard, setShard, Array.getElem?_setIfInBounds_ne h]

theorem toList_split {m : ShardedMap K V} {i : Nat} (h : i < m.shardCount) :
    ∃ a b, m.toList = a ++ m.shard i ++ b ∧ ∀ l, (m.setShard i l).toList = a ++ l ++ b := by
  have hi : i < m.shards.toList.length := h
  refine ⟨(m.shards.toList.take i).flatten, (m.shards.toList.drop (i + 1)).flatten, ?_, ?_⟩
  · have hget : m.shard i = m.shards.toList[i] := by
      simp only [shardCount] at h
      simp [shard, h]
    have hsplit := List.take_append_drop i m.shards.toList
    rw [List.drop_eq_getElem_cons hi, ← hget] at hsplit
    have hflat := congrArg List.flatten hsplit
    rw [List.flatten_append, List.flatten_cons] at hflat
    rw [toList, ← hflat, List.append_assoc]
  · intro l
    simp [toList, setShard, List.set_eq_take_append_cons_drop, show i < m.shards.size from h]

theorem mem_toList_of_mem_shard {m : ShardedMap K V} {i : Nat} {b : K × V} (h : b ∈ m.shard i) :
    b ∈ m.toList := by
  by_cases hi : i < m.shardCount
  · obtain ⟨x, y, hxy, -⟩ := toList_split hi
    rw [hxy]
    simp [h]
  · simp only [shardCount] at hi
    simp [shard, hi] at h

theorem exists_shard_of_mem {m : ShardedMap K V} {b : K × V} (h : b ∈ m.toList) :
    ∃ i, b ∈ m.shard i := by
  obtain ⟨l, hl, hb⟩ := List.mem_flatten.1 h
  obtain ⟨i, hi, rfl⟩ := List.mem_iff_getElem.1 hl
  have hi' : i < m.shards.size := hi
  exact ⟨i, by simpa [shard, hi'] using hb⟩

theorem mem_or_mem_of_mem_setShard {m : ShardedMap K V} {i : Nat} {l : Bindings K V} {b : K × V}
    (h : b ∈ (m.setShard i l).toList) : b ∈ l ∨ b ∈ m.toList := by
  by_cases hi : i < m.shardCount
  · obtain ⟨x, y, hxy, hset⟩ := toList_split hi
    rw [hset, List.mem_append, List.mem_append] at h
    rw [hxy, List.mem_append, List.mem_append]
    rcases h with (h | h) | h
    · exact .inr (.inl (.inl h))
    · exact .inl h
    · exact .inr (.inr h)
  · have hsame : m.setShard i l = m := by
      simp only [shardCount] at hi
      simp [setShard, Array.setIfInBounds, hi]
    exact .inr (hsame ▸ h)

theorem mem_of_mem_filterShard {m : ShardedMap K V} {i : Nat} {p : K × V → Bool}
    {b : K × V} (h : b ∈ (m.setShard i ((m.shard i).filter p)).toList) : b ∈ m.toList :=
  (mem_or_mem_of_mem_setShard h).elim
    (fun h ↦ mem_toList_of_mem_shard (List.mem_filter.1 h).1) id

section
variable [DecidableEq K] {m : ShardedMap K V} {k : K}

theorem mem_of_get?_some {v : V} (h : m.get? k = some v) : (k, v) ∈ m.toList :=
  mem_toList_of_mem_shard (Bindings.mem_of_get?_some h)

theorem mem_or_mem_of_mem_insert {v : V} {b : K × V} (h : b ∈ (m.insert k v).toList) :
    b = (k, v) ∨ b ∈ m.toList := by
  rcases mem_or_mem_of_mem_setShard h with h | h
  · exact (Bindings.mem_or_mem_of_mem_insert h).imp_right mem_toList_of_mem_shard
  · exact .inr h

theorem mem_of_mem_erase {b : K × V} (h : b ∈ (m.erase k).toList) : b ∈ m.toList :=
  mem_of_mem_filterShard h

end

namespace Proper
variable {m : ShardedMap K V}

theorem mem_home (h : m.Proper) {b : K × V} (hb : b ∈ m.toList) : b ∈ m.shard (m.home b.1) := by
  obtain ⟨i, hi⟩ := exists_shard_of_mem hb
  rwa [h.home i b hi]

theorem keys_nodup (h : m.Proper) (i : Nat) : (m.shard i).keys.Nodup := by
  by_cases hi : i < m.shardCount
  · obtain ⟨a, b, hab, -⟩ := toList_split hi
    have hn := h.nodup
    simp only [hab, List.map_append, List.nodup_append] at hn
    exact hn.1.2.1
  · simp only [shardCount] at hi
    simp [shard, hi, Bindings.keys]

theorem setShard (h : m.Proper) {i : Nat} {l : Bindings K V}
    (hl : ∀ b ∈ l, m.home b.1 = i) (hn : ((m.setShard i l).toList.map Prod.fst).Nodup) :
    (m.setShard i l).Proper where
  shards_pos := by simpa using h.shards_pos
  home j b hb := by
    rw [home_setShard]
    by_cases hj : i = j
    · subst hj
      by_cases hi : i < m.shardCount
      · exact hl b (by rwa [shard_setShard_self hi] at hb)
      · simp only [shardCount] at hi
        simp [shard, ShardedMap.setShard, hi] at hb
    · exact h.home j b (by rwa [shard_setShard_ne m l hj] at hb)
  nodup := hn

theorem filterShard (h : m.Proper) (i : Nat) (p : K × V → Bool) :
    (m.setShard i ((m.shard i).filter p)).Proper := by
  refine h.setShard (fun b hb ↦ h.home i b ((List.mem_filter.1 hb).1)) ?_
  by_cases hi : i < m.shardCount
  · obtain ⟨a, b, hab, hset⟩ := toList_split hi
    have hn := h.nodup
    rw [hab] at hn
    rw [hset]
    refine hn.sublist (List.Sublist.map _ ?_)
    exact (List.filter_sublist.append_left a).append_right b
  · simp only [shardCount] at hi
    simpa [ShardedMap.setShard, Array.setIfInBounds, hi] using h.nodup

variable [DecidableEq K]

theorem get?_eq_some_iff (h : m.Proper) {k : K} {v : V} :
    m.get? k = some v ↔ (k, v) ∈ m.toList := by
  rw [get?, Bindings.get?_eq_some_iff (h.keys_nodup _)]
  exact ⟨mem_toList_of_mem_shard, fun hm ↦ h.mem_home hm⟩

theorem get?_eq_none_iff (h : m.Proper) {k : K} :
    m.get? k = none ↔ k ∉ m.toList.map Prod.fst := by
  have hmem : k ∈ m.toList.map Prod.fst ↔ ∃ v, m.get? k = some v := by
    simp [h.get?_eq_some_iff]
  rw [hmem, ← Option.isSome_iff_exists, Option.not_isSome_iff_eq_none]

/-- Where a key is free, its new binding comes in at one place. -/
theorem insert_free (h : m.Proper) {k : K} (hk : m.get? k = none) :
    ∃ a b, m.toList = a ++ b ∧ ∀ v, (m.insert k v).toList = a ++ (k, v) :: b := by
  obtain ⟨a, b, hab, hset⟩ := toList_split (home_lt h.shards_pos k)
  refine ⟨a ++ m.shard (m.home k), b, hab, fun v ↦ ?_⟩
  rw [insert, Bindings.insert_of_get?_none v hk, hset]
  simp

/-- Where a key is bound, it is bound at one place, and there it is bound anew or erased. -/
theorem split_of_get?_some (h : m.Proper) {k : K} {old : V} (hk : m.get? k = some old) :
    ∃ a b, m.toList = a ++ (k, old) :: b ∧
      (∀ v, (m.insert k v).toList = a ++ (k, v) :: b) ∧ (m.erase k).toList = a ++ b := by
  obtain ⟨a, b, hab, hset⟩ := toList_split (home_lt h.shards_pos k)
  obtain ⟨x, y, hxy, hinsert, herase⟩ := Bindings.split_of_get?_some (h.keys_nodup _) hk
  refine ⟨a ++ x, y ++ b, by simp [hab, hxy], fun v ↦ ?_, ?_⟩
  · rw [insert, hinsert, hset]; simp
  · rw [erase, herase, hset]; simp

theorem erase_free (h : m.Proper) {k : K} (hk : m.get? k = none) :
    (m.erase k).toList = m.toList := by
  obtain ⟨a, b, hab, hset⟩ := toList_split (home_lt h.shards_pos k)
  rw [erase, Bindings.erase_of_get?_none hk, hset, hab]

theorem insert (h : m.Proper) (k : K) (v : V) : (m.insert k v).Proper := by
  refine h.setShard (fun b hb ↦ ?_) ?_
  · rcases hk : m.get? k with _ | old
    · rw [Bindings.insert_of_get?_none v hk] at hb
      rcases List.mem_append.1 hb with hb | hb
      · exact h.home _ b hb
      · simp [List.mem_singleton.1 hb]
    · obtain ⟨x, y, hxy, hinsert, -⟩ := Bindings.split_of_get?_some (h.keys_nodup _) hk
      rw [hinsert] at hb
      rcases List.mem_append.1 hb with hb | hb
      · exact h.home _ b (by rw [hxy]; simp [hb])
      · rcases List.mem_cons.1 hb with rfl | hb
        · rfl
        · exact h.home _ b (by rw [hxy]; simp [hb])
  · have hn := h.nodup
    change ((m.insert k v).toList.map Prod.fst).Nodup
    rcases hk : m.get? k with _ | old
    · obtain ⟨a, b, hab, hinsert⟩ := h.insert_free hk
      rw [h.get?_eq_none_iff, hab] at hk
      rw [hab] at hn
      rw [hinsert v]
      simp only [List.map_append, List.map_cons] at hk hn ⊢
      rw [List.perm_middle.nodup_iff, List.nodup_cons]
      exact ⟨by simpa using hk, by simpa using hn⟩
    · obtain ⟨a, b, hab, hinsert, -⟩ := h.split_of_get?_some hk
      rw [hinsert v]
      rw [hab] at hn
      simpa using hn

theorem erase (h : m.Proper) (k : K) : (m.erase k).Proper := h.filterShard _ _

end Proper

section
variable [DecidableEq K]

theorem home_insert (m : ShardedMap K V) (k : K) (v : V) : (m.insert k v).home = m.home :=
  funext fun k' ↦ home_setShard m _ _ k'

theorem home_erase (m : ShardedMap K V) (k : K) : (m.erase k).home = m.home :=
  funext fun k' ↦ home_setShard m _ _ k'

theorem get?_insert_self {m : ShardedMap K V} (h : 0 < m.shardCount) (k : K) (v : V) :
    (m.insert k v).get? k = some v := by
  rw [get?, insert, home_setShard, shard_setShard_self (home_lt h k), Bindings.get?_insert_self]

theorem get?_insert_ne (m : ShardedMap K V) {k k' : K} (v : V) (h : k ≠ k') :
    (m.insert k v).get? k' = m.get? k' := by
  rw [get?, get?, insert, home_setShard]
  by_cases hh : m.home k = m.home k'
  · by_cases hlt : m.home k < m.shardCount
    · rw [hh] at hlt ⊢
      rw [shard_setShard_self hlt, Bindings.get?_insert_ne _ _ h]
    · simp only [shardCount] at hlt
      simp [setShard, Array.setIfInBounds, hlt]
  · rw [shard_setShard_ne m _ hh]

theorem get?_erase_self {m : ShardedMap K V} (h : 0 < m.shardCount) (k : K) :
    (m.erase k).get? k = none := by
  rw [get?, erase, home_setShard, shard_setShard_self (home_lt h k), Bindings.get?_erase_self]

theorem get?_erase_ne (m : ShardedMap K V) {k k' : K} (h : k ≠ k') :
    (m.erase k).get? k' = m.get? k' := by
  rw [get?, get?, erase, home_setShard]
  by_cases hh : m.home k = m.home k'
  · by_cases hlt : m.home k < m.shardCount
    · rw [hh] at hlt ⊢
      rw [shard_setShard_self hlt, Bindings.get?_erase_ne _ h]
    · simp only [shardCount] at hlt
      simp [setShard, Array.setIfInBounds, hlt]
  · rw [shard_setShard_ne m _ hh]

theorem get?_filter (l : Bindings K V) (p : K → Bool) (k : K) :
    Bindings.get? (l.filter fun b ↦ p b.1) k = if p k then Bindings.get? l k else none := by
  induction l with
  | nil => simp [Bindings.get?]
  | cons b rest ih =>
    by_cases hb : b.1 = k
    · cases hp : p k
      · simpa [hb, hp] using ih
      · simp [Bindings.get?, hb, hp]
    · cases hp : p b.1
      · simpa [Bindings.get?, hb, hp] using ih
      · simpa [Bindings.get?, hb, hp] using ih

theorem get?_filterShard {m : ShardedMap K V} (h : 0 < m.shardCount) (i : Nat) (p : K → Bool)
    (k : K) : (m.setShard i ((m.shard i).filter fun b ↦ p b.1)).get? k =
      if m.home k = i && !p k then none else m.get? k := by
  rw [get?, get?, home_setShard]
  by_cases hi : m.home k = i
  · subst hi
    rw [shard_setShard_self (home_lt h k), get?_filter]
    cases p k <;> simp
  · simp [shard_setShard_ne m _ (Ne.symm hi), hi]

theorem shardCount_insert (m : ShardedMap K V) (k : K) (v : V) :
    (m.insert k v).shardCount = m.shardCount := shardCount_setShard m _ _

theorem shardCount_erase (m : ShardedMap K V) (k : K) : (m.erase k).shardCount = m.shardCount :=
  shardCount_setShard m _ _

end
end ShardedMap
end ReadCache
