namespace ReadCache

abbrev Bindings (K V : Type) := List (K × V)

namespace Bindings
variable {K V : Type} [DecidableEq K]

def get? : Bindings K V → K → Option V
  | [], _ => none
  | (key, value) :: rest, k => if key = k then some value else get? rest k

def insert : Bindings K V → K → V → Bindings K V
  | [], k, v => [(k, v)]
  | (key, value) :: rest, k, v =>
    if key = k then (k, v) :: rest else (key, value) :: insert rest k v

def erase (l : Bindings K V) (k : K) : Bindings K V := l.filter fun b => b.1 ≠ k

def keys (l : Bindings K V) : List K := l.map Prod.fst

theorem get?_insert_self (l : Bindings K V) (k : K) (v : V) : (l.insert k v).get? k = some v := by
  induction l with
  | nil => simp [insert, get?]
  | cons b rest ih =>
    by_cases h : b.1 = k
    · simp [insert, get?, h]
    · simp [insert, get?, h, ih]

theorem get?_insert_ne (l : Bindings K V) {k k' : K} (v : V) (h : k ≠ k') :
    (l.insert k v).get? k' = l.get? k' := by
  induction l with
  | nil => simp [insert, get?, h]
  | cons b rest ih =>
    by_cases hb : b.1 = k
    · simp [insert, get?, hb, h]
    · simp [insert, get?, hb, ih]

theorem get?_erase_self (l : Bindings K V) (k : K) : (l.erase k).get? k = none := by
  induction l with
  | nil => rfl
  | cons b rest ih =>
    by_cases hb : b.1 = k
    · simpa [erase, hb] using ih
    · simpa [erase, get?, hb] using ih

theorem get?_erase_ne (l : Bindings K V) {k k' : K} (h : k ≠ k') :
    (l.erase k).get? k' = l.get? k' := by
  induction l with
  | nil => rfl
  | cons b rest ih =>
    by_cases hb : b.1 = k
    · simpa [erase, get?, hb, h] using ih
    · by_cases hb' : b.1 = k' <;> simp_all [erase, get?]

theorem get?_eq_none_iff {l : Bindings K V} {k : K} : l.get? k = none ↔ k ∉ l.keys := by
  induction l with
  | nil => simp [get?, keys]
  | cons b rest ih =>
    by_cases h : b.1 = k
    · simp [get?, keys, h]
    · simpa [get?, keys, h, Ne.symm h] using ih

theorem mem_of_get?_some {l : Bindings K V} {k : K} {v : V} (h : l.get? k = some v) : (k, v) ∈ l := by
  induction l with
  | nil => cases h
  | cons b rest ih =>
    by_cases hb : b.1 = k
    · simp only [get?, hb, if_true, Option.some.injEq] at h
      exact List.mem_cons.2 (.inl (Prod.ext hb.symm h.symm))
    · simp only [get?, hb, if_false] at h
      exact List.mem_cons_of_mem _ (ih h)

theorem mem_or_mem_of_mem_insert {l : Bindings K V} {k : K} {v : V} {b : K × V}
    (h : b ∈ l.insert k v) : b = (k, v) ∨ b ∈ l := by
  induction l with
  | nil => exact .inl (List.mem_singleton.1 h)
  | cons c rest ih =>
    simp only [insert] at h
    split at h
    · exact (List.mem_cons.1 h).imp_right (List.mem_cons_of_mem _)
    · rcases List.mem_cons.1 h with rfl | h
      · exact .inr List.mem_cons_self
      · exact (ih h).imp_right (List.mem_cons_of_mem _)

theorem insert_of_get?_none {l : Bindings K V} {k : K} (v : V) (h : l.get? k = none) :
    l.insert k v = l ++ [(k, v)] := by
  induction l with
  | nil => rfl
  | cons b rest ih =>
    by_cases hb : b.1 = k
    · simp [get?, hb] at h
    · simp only [get?, hb, if_false] at h
      simp [insert, hb, ih h]

theorem erase_of_get?_none {l : Bindings K V} {k : K} (h : l.get? k = none) : l.erase k = l := by
  rw [get?_eq_none_iff] at h
  refine List.filter_eq_self.2 fun b hb ↦ ?_
  have hne : b.1 ≠ k := fun e ↦ h (e ▸ List.mem_map_of_mem hb)
  simpa using hne

/-- A bound key splits the list, and both operations act at the split only. -/
theorem split_of_get?_some {l : Bindings K V} {k : K} {old : V} (hl : l.keys.Nodup)
    (h : l.get? k = some old) :
    ∃ a b, l = a ++ (k, old) :: b ∧ (∀ v, l.insert k v = a ++ (k, v) :: b) ∧
      l.erase k = a ++ b := by
  induction l with
  | nil => simp [get?] at h
  | cons entry rest ih =>
    obtain ⟨key, value⟩ := entry
    simp only [keys, List.map_cons, List.nodup_cons] at hl
    by_cases hk : key = k
    · subst hk
      simp only [get?, if_true, Option.some.injEq] at h
      have hrest : get? rest key = none := get?_eq_none_iff.2 hl.1
      refine ⟨[], rest, by simp [h], fun v ↦ by simp [insert], ?_⟩
      simpa [erase] using erase_of_get?_none hrest
    · simp only [get?, hk, if_false] at h
      obtain ⟨a, b, hab, hinsert, herase⟩ := ih hl.2 h
      refine ⟨(key, value) :: a, b, by simp [hab], fun v ↦ by simp [insert, hk, hinsert v], ?_⟩
      simpa [erase, hk] using herase

theorem get?_eq_some_iff {l : Bindings K V} {k : K} {v : V} (hl : l.keys.Nodup) :
    l.get? k = some v ↔ (k, v) ∈ l := by
  induction l with
  | nil => simp [get?]
  | cons entry rest ih =>
    obtain ⟨key, value⟩ := entry
    simp only [keys, List.map_cons, List.nodup_cons] at hl
    by_cases hk : key = k
    · subst hk
      have hne : (key, v) ∉ rest := fun hm ↦ hl.1 (List.mem_map_of_mem hm)
      simp [get?, hne, eq_comm]
    · simpa [get?, hk, Ne.symm hk] using ih hl.2

end Bindings
end ReadCache
