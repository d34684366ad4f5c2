import ReadCache.Store.Engine
import ReadCache.Proofs.Entries
import ReadCache.Proofs.References

namespace ReadCache

def weightOf (l : List (ChunkId × Resident)) : Nat := (l.map fun b ↦ b.2.weight).sum

/-- Least recently used first, in any order where stamps are equal. -/
def ByAge (l : List (ChunkId × Resident)) : Prop :=
  l.Pairwise fun a b ↦ a.2.lastAccess ≤ b.2.lastAccess

/-- The shortest prefix without which the weight is at most `target`. -/
def shedding (target : Nat) : (weight : Nat) → List (ChunkId × Resident) → List (ChunkId × Resident)
  | _, [] => []
  | weight, v :: rest =>
    if weight ≤ target then [] else v :: shedding target (weight - v.2.weight) rest

@[simp] theorem weightOf_nil : weightOf [] = 0 := rfl

@[simp] theorem weightOf_cons (v : ChunkId × Resident) (l : List (ChunkId × Resident)) :
    weightOf (v :: l) = v.2.weight + weightOf l := rfl

@[simp] theorem weightOf_append (a b : List (ChunkId × Resident)) :
    weightOf (a ++ b) = weightOf a + weightOf b := by
  simp [weightOf]

theorem weightOf_perm {a b : List (ChunkId × Resident)} (h : a.Perm b) :
    weightOf a = weightOf b := (h.map _).sum_nat

section
variable {target weight : Nat} {l r : List (ChunkId × Resident)}

theorem shedding_of_le (h : weight ≤ target) : shedding target weight l = [] := by
  cases l with
  | nil => rfl
  | cons v l => simp [shedding, h]

theorem shedding_eq_take (target weight : Nat) (l : List (ChunkId × Resident)) :
    shedding target weight l = l.take (shedding target weight l).length := by
  induction l generalizing weight with
  | nil => rfl
  | cons v l ih =>
    by_cases h : weight ≤ target
    · simp [shedding, h]
    · simp only [shedding, h, if_false, List.length_cons, List.take_succ_cons]
      rw [← ih]

theorem shedding_append_drop (target weight : Nat) (l : List (ChunkId × Resident)) :
    shedding target weight l ++ l.drop (shedding target weight l).length = l := by
  conv_rhs =>
    rw [← List.take_append_drop (shedding target weight l).length l, ← shedding_eq_take]

theorem shedding_min (target weight : Nat) (l : List (ChunkId × Resident)) {n : Nat}
    (hn : n < (shedding target weight l).length) : target < weight - weightOf (l.take n) := by
  induction l generalizing weight n with
  | nil => simp [shedding] at hn
  | cons v l ih =>
    by_cases h : weight ≤ target
    · simp [shedding, h] at hn
    · simp only [shedding, h, if_false, List.length_cons] at hn
      cases n with
      | zero =>
        simp only [List.take_zero, weightOf_nil]
        omega
      | succ n =>
        have hrest := ih (weight - v.2.weight) (Nat.lt_of_succ_lt_succ hn)
        simp only [List.take_succ_cons, weightOf_cons]
        omega

theorem shedding_enough (target weight : Nat) (l : List (ChunkId × Resident)) :
    weight - weightOf (shedding target weight l) ≤ target ∨ shedding target weight l = l := by
  induction l generalizing weight with
  | nil => exact .inr rfl
  | cons v l ih =>
    by_cases h : weight ≤ target
    · exact .inl (by simp [shedding, h])
    · simp only [shedding, h, if_false, weightOf_cons, List.cons.injEq, true_and]
      rcases ih (weight - v.2.weight) with he | he
      · exact .inl (by omega)
      · exact .inr he

theorem shedding_append_of_enough
    (h : weight - weightOf (shedding target weight l) ≤ target) :
    shedding target weight (l ++ r) = shedding target weight l := by
  induction l generalizing weight with
  | nil => exact shedding_of_le (by simpa [shedding] using h)
  | cons v l ih =>
    by_cases hw : weight ≤ target
    · simp [shedding, hw]
    · simp only [shedding, hw, if_false, weightOf_cons] at h
      simp only [List.cons_append, shedding, hw, if_false, List.cons.injEq, true_and]
      exact ih (by omega)

theorem shedding_append_of_all (h : shedding target weight l = l) :
    shedding target weight (l ++ r) = l ++ shedding target (weight - weightOf l) r := by
  induction l generalizing weight with
  | nil => simp
  | cons v l ih =>
    by_cases hw : weight ≤ target
    · simp [shedding, hw] at h
    · simp only [shedding, hw, if_false, List.cons.injEq, true_and] at h
      simp only [List.cons_append, shedding, hw, if_false, ih h, weightOf_cons]
      rw [Nat.sub_sub]

end

/-- The weight that is kept is that of the residents. -/
structure Store.Coherent (s : Store) : Prop where
  proper : s.slots.Proper
  weight : s.weightedSize = weightOf s.residents

theorem Store.residentWeight_eq (s : Store) : s.residentWeight = weightOf s.residents := by
  simp only [residentWeight, entries, weightOf, List.map_map]
  rfl

namespace Engine

/-- The engine without some chunks, each of them counted as evicted and left by the table. -/
def without (e : Engine) (victims : List (ChunkId × Resident)) : Engine where
  store :=
    { e.store with
      slots := victims.foldl (fun slots v ↦ slots.erase v.1) e.store.slots
      weightedSize := e.store.weightedSize - weightOf victims
      counters :=
        { e.store.counters with
          evictionsSize := e.store.counters.evictionsSize + victims.length } }
  memory := victims.foldl (fun m v ↦ m.unreference v.2.chunk) e.memory

variable {e : Engine} {target : Nat}

@[simp] theorem without_nil (e : Engine) : e.without [] = e := rfl

theorem without_append (e : Engine) (a b : List (ChunkId × Resident)) :
    e.without (a ++ b) = (e.without a).without b := by
  simp [without, Nat.sub_sub, Nat.add_assoc]

theorem without_cons (e : Engine) (v : ChunkId × Resident) (l : List (ChunkId × Resident)) :
    e.without (v :: l) = (e.without [v]).without l := without_append e [v] l

theorem residents_without_one (h : e.store.Coherent) {v : ChunkId × Resident}
    (hv : v ∈ e.store.residents) :
    e.store.residents.Perm (v :: (e.without [v]).store.residents) :=
  Store.residents_detach h.proper ((Store.mem_residents h.proper).1 hv)

theorem coherent_without_one (h : e.store.Coherent) {v : ChunkId × Resident}
    (hv : v ∈ e.store.residents) : (e.without [v]).store.Coherent where
  proper := h.proper.erase v.1
  weight := by
    have hw := weightOf_perm (residents_without_one h hv)
    have hs : (e.without [v]).store.weightedSize = e.store.weightedSize - weightOf [v] := rfl
    rw [weightOf_cons] at hw
    rw [hs, h.weight, hw]
    simp

theorem residents_without (h : e.store.Coherent) {victims rest : List (ChunkId × Resident)}
    (hp : (victims ++ rest).Perm e.store.residents) :
    (e.without victims).store.Coherent ∧ rest.Perm (e.without victims).store.residents := by
  induction victims generalizing e with
  | nil => exact ⟨h, hp⟩
  | cons v victims ih =>
    have hv : v ∈ e.store.residents := hp.mem_iff.1 (by simp)
    rw [without_cons]
    exact ih (coherent_without_one h hv) ((hp.trans (residents_without_one h hv)).cons_inv)

theorem evict_resident (h : e.store.Coherent) {v : ChunkId × Resident}
    (hv : v ∈ e.store.residents) : e.evict v.1 v.2.chunk = (true, e.without [v]) := by
  have hget := (Store.mem_residents h.proper).1 hv
  rcases Store.detachIf_cases e.store v.1 v.2.chunk with ⟨r, hr, -, he⟩ | ⟨hn, -⟩
  · rw [hget] at hr
    cases hr
    rw [evict, he]
    simp [without, retire, Store.detach, Store.discount, Store.record, Counters.record]
  · exact absurd rfl (hn _ hget)

theorem evictBatch_eq (h : e.store.Coherent) {batch rest : List (ChunkId × Resident)}
    (hp : (batch ++ rest).Perm e.store.residents) :
    e.evictBatch target batch =
      ((shedding target e.store.weightedSize batch).length,
        e.without (shedding target e.store.weightedSize batch)) := by
  induction batch generalizing e with
  | nil => rfl
  | cons v batch ih =>
    have hv : v ∈ e.store.residents := hp.mem_iff.1 (by simp)
    by_cases hw : e.store.weightedSize ≤ target
    · simp [evictBatch, shedding, hw]
    · have hrest := ih (coherent_without_one h hv)
        ((hp.trans (residents_without_one h hv)).cons_inv)
      have hs : (e.without [v]).store.weightedSize = e.store.weightedSize - v.2.weight := rfl
      simp only [evictBatch, hw, if_false, evict_resident h hv, if_true, shedding, hrest, hs,
        List.length_cons]
      rw [← without_cons]

theorem byAge_mergeSort (l : List (ChunkId × Resident)) :
    ByAge (l.mergeSort fun a b ↦ a.2.lastAccess ≤ b.2.lastAccess) := by
  have htrans (a b c : ChunkId × Resident)
      (hab : decide (a.2.lastAccess ≤ b.2.lastAccess) = true)
      (hbc : decide (b.2.lastAccess ≤ c.2.lastAccess) = true) :
      decide (a.2.lastAccess ≤ c.2.lastAccess) = true := by
    simp only [decide_eq_true_eq] at hab hbc ⊢
    exact Nat.le_trans hab hbc
  have htotal (a b : ChunkId × Resident) :
      (decide (a.2.lastAccess ≤ b.2.lastAccess) || decide (b.2.lastAccess ≤ a.2.lastAccess)) =
        true := by
    simpa using Nat.le_total _ _
  exact (List.pairwise_mergeSort htrans htotal l).imp fun h ↦ of_decide_eq_true h

theorem byAge_perm (s : Store) (seen : List (ChunkId × Resident)) : (s.byAge seen).Perm seen :=
  (List.mergeSort_perm _ _).trans (s.settings.ties.perm s.clock seen)

theorem byAge_byAge (s : Store) (seen : List (ChunkId × Resident)) : ByAge (s.byAge seen) :=
  byAge_mergeSort _

theorem leastRecent_of_arranged {s : Store} {seen order : List (ChunkId × Resident)}
    (ha : s.settings.ties.arrange s.clock seen = order) (h : ByAge order) :
    s.leastRecent seen = order.take s.batchSize := by
  rw [Store.leastRecent, Store.byAge, ha,
    List.mergeSort_of_pairwise (h.imp fun hab ↦ decide_eq_true hab)]

theorem exists_candidates_append (s : Store) :
    ∃ rest, (s.candidates ++ rest).Perm s.residents ∧ ByAge (s.candidates ++ rest) := by
  refine ⟨(s.byAge s.residents).drop s.batchSize, ?_, ?_⟩
  · rw [Store.candidates, Store.leastRecent, List.take_append_drop]
    exact byAge_perm s s.residents
  · rw [Store.candidates, Store.leastRecent, List.take_append_drop]
    exact byAge_byAge s s.residents

theorem leastRecent_ne_nil {s : Store} {seen : List (ChunkId × Resident)} (hb : s.batchSize ≠ 0)
    (hs : seen ≠ []) : s.leastRecent seen ≠ [] := by
  intro hnil
  rcases List.take_eq_nil_iff.1 hnil with hzero | hnone
  · exact hb hzero
  · have hp := byAge_perm s seen
    rw [hnone] at hp
    exact hs hp.symm.eq_nil

theorem candidates_ne_nil {s : Store} (hb : s.batchSize ≠ 0) (hr : s.residents ≠ []) :
    s.candidates ≠ [] := leastRecent_ne_nil hb hr

theorem leastRecent_subset (s : Store) (seen : List (ChunkId × Resident)) :
    s.leastRecent seen ⊆ seen := by
  intro b hb
  exact (byAge_perm s seen).subset (List.mem_of_mem_take hb)

theorem residents_ne_nil (h : e.store.Coherent) (hw : target < e.store.weightedSize) :
    e.store.residents ≠ [] := by
  intro hnil
  have hzero := h.weight
  rw [hnil, weightOf_nil] at hzero
  omega

theorem evictDown_of_le (h : e.store.weightedSize ≤ target) (rounds : Nat) :
    evictDown target rounds e = e := by
  cases rounds with
  | zero => rfl
  | succ rounds => simp [evictDown, h]

/-- A round that is needed takes out of its candidates the shortest prefix that is enough. -/
theorem evictDown_succ (h : e.store.Coherent) (hb : e.store.batchSize ≠ 0)
    (hw : ¬ e.store.weightedSize ≤ target) {batch rest : List (ChunkId × Resident)}
    (hcand : e.store.candidates = batch) (hp : (batch ++ rest).Perm e.store.residents)
    (rounds : Nat) :
    batch ≠ [] ∧ evictDown target (rounds + 1) e =
      evictDown target rounds (e.without (shedding target e.store.weightedSize batch)) := by
  have hbatch := candidates_ne_nil hb (residents_ne_nil h (Nat.lt_of_not_le hw))
  rw [hcand] at hbatch
  refine ⟨hbatch, ?_⟩
  obtain ⟨n, hn⟩ : ∃ n, (shedding target e.store.weightedSize batch).length = n + 1 := by
    obtain ⟨v, batch, rfl⟩ := List.exists_cons_of_ne_nil hbatch
    simp [shedding, hw]
  simp only [evictDown, hw, if_false, hcand, evictBatch_eq h hp, hn]

theorem length_without_le (h : e.store.Coherent) {batch rest : List (ChunkId × Resident)}
    (hp : (batch ++ rest).Perm e.store.residents) (hbatch : batch ≠ []) {rounds : Nat}
    (hr : e.store.residents.length ≤ rounds + 1) :
    (e.without batch).store.residents.length ≤ rounds := by
  have hpos := List.length_pos_iff.2 hbatch
  have htotal := hp.length_eq
  rw [List.length_append] at htotal
  rw [← (residents_without h hp).2.length_eq]
  omega

theorem evictDown_eq (h : e.store.Coherent) (hb : e.store.batchSize ≠ 0) {rounds : Nat}
    (hr : e.store.residents.length ≤ rounds) :
    ∃ order, order.Perm e.store.residents ∧ ByAge order ∧
      evictDown target rounds e = e.without (shedding target e.store.weightedSize order) := by
  -- The candidates of a round come first in an order by age of all that is left.
  induction rounds generalizing e with
  | zero =>
    have hnil : e.store.residents = [] := List.length_eq_zero_iff.1 (Nat.le_zero.1 hr)
    exact ⟨[], by rw [hnil], .nil, rfl⟩
  | succ rounds ih =>
    obtain ⟨rest, hp, hage⟩ := exists_candidates_append e.store
    by_cases hw : e.store.weightedSize ≤ target
    · exact ⟨_, hp, hage, by rw [evictDown_of_le hw, shedding_of_le hw, without_nil]⟩
    obtain ⟨hbatch, hround⟩ := evictDown_succ h hb hw rfl hp rounds
    rw [hround]
    generalize e.store.candidates = batch at hp hage hbatch hround
    -- The batch was enough, or it goes as a whole and so does what the later rounds take.
    rcases shedding_enough target e.store.weightedSize batch with he | he
    · refine ⟨batch ++ rest, hp, hage, ?_⟩
      rw [shedding_append_of_enough he]
      exact evictDown_of_le he rounds
    · rw [he]
      obtain ⟨hcoherent, hrest⟩ := residents_without h hp
      obtain ⟨order, horder, holder, hdown⟩ := ih hcoherent hb (length_without_le h hp hbatch hr)
      have hboth := List.pairwise_append.1 hage
      refine ⟨batch ++ order, ?_, List.pairwise_append.2 ⟨hboth.1, holder, ?_⟩, ?_⟩
      · exact ((horder.trans hrest.symm).append_left batch).trans hp
      · intro a ha b hb
        exact hboth.2.2 a ha b (hrest.mem_iff.2 (horder.mem_iff.1 hb))
      · rw [hdown, shedding_append_of_all he, without_append]
        rfl

/-- Ties by which what is listed in `order` comes up in that order. -/
def inOrder (order : List (ChunkId × Resident)) : Store.Ties where
  arrange _ seen :=
    if (order.filter (· ∈ seen)).Perm seen then order.filter (· ∈ seen) else seen
  perm _ seen := by
    split
    · assumption
    · exact .refl seen

theorem arrange_inOrder {before rest seen : List (ChunkId × Resident)}
    (hnodup : (before ++ rest).Nodup) (hp : rest.Perm seen) (clock : Nat) :
    (inOrder (before ++ rest)).arrange clock seen = rest := by
  have hbefore : before.filter (· ∈ seen) = [] := by
    refine List.filter_eq_nil_iff.2 fun v hv hm ↦ ?_
    have hrest := hp.mem_iff.2 (of_decide_eq_true hm)
    exact (List.nodup_append.1 hnodup).2.2 v hv v hrest rfl
  have hrest : rest.filter (· ∈ seen) = rest := by
    refine List.filter_eq_self.2 fun v hv ↦ ?_
    exact decide_eq_true (hp.mem_iff.1 hv)
  have hlisted : (before ++ rest).filter (· ∈ seen) = rest := by
    rw [List.filter_append, hbefore, hrest, List.nil_append]
  simp only [inOrder, hlisted, if_pos hp]

theorem evictDown_inOrder {before rest : List (ChunkId × Resident)} (h : e.store.Coherent)
    (hb : e.store.batchSize ≠ 0) (hties : e.store.settings.ties = inOrder (before ++ rest))
    (hnodup : (before ++ rest).Nodup) (hp : rest.Perm e.store.residents) (hage : ByAge rest)
    {rounds : Nat} (hr : e.store.residents.length ≤ rounds) :
    evictDown target rounds e = e.without (shedding target e.store.weightedSize rest) := by
  -- What the rounds so far have taken out is listed before the rest.
  induction rounds generalizing e before rest with
  | zero =>
    have hnil : e.store.residents = [] := List.length_eq_zero_iff.1 (Nat.le_zero.1 hr)
    rw [hnil] at hp
    rw [hp.eq_nil]
    rfl
  | succ rounds ih =>
    by_cases hw : e.store.weightedSize ≤ target
    · rw [evictDown_of_le hw, shedding_of_le hw, without_nil]
    have hcand : e.store.candidates = rest.take e.store.batchSize := by
      refine leastRecent_of_arranged ?_ hage
      rw [hties]
      exact arrange_inOrder hnodup hp _
    have hsplit := List.take_append_drop e.store.batchSize rest
    generalize rest.take e.store.batchSize = batch at hcand hsplit
    generalize rest.drop e.store.batchSize = left at hsplit
    subst hsplit
    obtain ⟨hbatch, hround⟩ := evictDown_succ h hb hw hcand hp rounds
    rw [hround]
    rcases shedding_enough target e.store.weightedSize batch with he | he
    · rw [shedding_append_of_enough he]
      exact evictDown_of_le he rounds
    · obtain ⟨hcoherent, hleft⟩ := residents_without h hp
      rw [← List.append_assoc] at hties hnodup
      have hrest := ih hcoherent hb hties hnodup hleft (List.pairwise_append.1 hage).2.1
        (length_without_le h hp hbatch hr)
      rw [he, hrest, shedding_append_of_all he, without_append]
      rfl

theorem evictBatch_candidates (h : e.store.Coherent) (hb : e.store.batchSize ≠ 0)
    (hw : target < e.store.weightedSize) :
    ∃ n e', e.evictBatch target e.store.candidates = (n + 1, e') ∧ e'.store.Coherent ∧
      e'.store.residents.length < e.store.residents.length ∧
      e'.store.settings = e.store.settings := by
  obtain ⟨rest, hp, -⟩ := exists_candidates_append e.store
  obtain ⟨v, batch, hcand⟩ :=
    List.exists_cons_of_ne_nil (candidates_ne_nil hb (residents_ne_nil h hw))
  rw [hcand] at hp ⊢
  have hbatch : e.evictBatch target (v :: batch) = _ := evictBatch_eq h hp
  have hlength : (shedding target e.store.weightedSize (v :: batch)).length =
      (shedding target (e.store.weightedSize - v.2.weight) batch).length + 1 := by
    simp [shedding, Nat.not_le.2 hw]
  have hsplit := shedding_append_drop target e.store.weightedSize (v :: batch)
  generalize shedding target e.store.weightedSize (v :: batch) = victims at hbatch hlength hsplit
  have hall : (victims ++ ((v :: batch).drop victims.length ++ rest)).Perm e.store.residents := by
    rw [← List.append_assoc, hsplit]
    exact hp
  obtain ⟨hcoherent, hleft⟩ := residents_without h hall
  refine ⟨_, _, hlength ▸ hbatch, hcoherent, ?_, rfl⟩
  have htotal := hall.length_eq
  rw [List.length_append] at htotal
  rw [← hleft.length_eq]
  omega

theorem evictIfNeeded_of_le (h : e.store.weightedSize ≤ e.store.capacity.toNat) :
    e.evictIfNeeded = e := by
  simp [evictIfNeeded, h]

theorem evictIfNeeded_eq (h : e.store.Coherent) (hb : e.store.batchSize ≠ 0)
    (ho : e.store.capacity.toNat < e.store.weightedSize) :
    ∃ order, order.Perm e.store.residents ∧ ByAge order ∧
      e.evictIfNeeded =
        e.without (shedding e.store.targetWeight e.store.weightedSize order) := by
  rw [evictIfNeeded, if_neg (Nat.not_le.2 ho)]
  exact evictDown_eq h hb (Nat.le_refl _)

def withTies (e : Engine) (ties : Store.Ties) : Engine :=
  e.onStore fun s ↦ { s with settings := { s.settings with ties } }

/-- Any order by age is the one of some pass. -/
theorem evictIfNeeded_inOrder {order : List (ChunkId × Resident)} (h : e.store.Coherent)
    (hb : e.store.batchSize ≠ 0) (ho : e.store.capacity.toNat < e.store.weightedSize)
    (hnodup : order.Nodup) (hp : order.Perm e.store.residents) (hage : ByAge order) :
    (e.withTies (inOrder order)).evictIfNeeded =
      (e.withTies (inOrder order)).without
        (shedding e.store.targetWeight e.store.weightedSize order) := by
  have hcoherent : (e.withTies (inOrder order)).store.Coherent := ⟨h.proper, h.weight⟩
  have hover : ¬ (e.withTies (inOrder order)).store.weightedSize ≤
      (e.withTies (inOrder order)).store.capacity.toNat := Nat.not_le.2 ho
  rw [evictIfNeeded, if_neg hover]
  have hties : (e.withTies (inOrder order)).store.settings.ties = inOrder ([] ++ order) := rfl
  exact evictDown_inOrder hcoherent hb hties hnodup hp hage (Nat.le_refl _)

theorem shedding_residents_enough (h : e.store.Coherent) {order : List (ChunkId × Resident)}
    (hp : order.Perm e.store.residents) :
    e.store.weightedSize - weightOf (shedding target e.store.weightedSize order) ≤ target := by
  rcases shedding_enough target e.store.weightedSize order with he | he
  · exact he
  · rw [he, h.weight, weightOf_perm hp]
    omega

theorem weightedSize_evictIfNeeded_le (h : e.store.Coherent) (hb : e.store.batchSize ≠ 0) :
    e.evictIfNeeded.store.weightedSize ≤ max e.store.capacity.toNat e.store.targetWeight := by
  by_cases ho : e.store.weightedSize ≤ e.store.capacity.toNat
  · rw [evictIfNeeded_of_le ho]
    exact Nat.le_trans ho (Nat.le_max_left _ _)
  · obtain ⟨order, hp, -, he⟩ := evictIfNeeded_eq h hb (Nat.lt_of_not_le ho)
    rw [he]
    exact Nat.le_trans (shedding_residents_enough h hp) (Nat.le_max_right _ _)

def withBatch (e : Engine) (n : UInt64) : Engine :=
  e.onStore fun s ↦
    { s with settings := { s.settings with eviction := { s.settings.eviction with batchSize := n } } }

theorem byAge_unique {a b l : List (ChunkId × Resident)} (ha : a.Perm l) (hb : b.Perm l)
    (haa : ByAge a) (hba : ByAge b) (hl : (l.map (·.2.lastAccess)).Nodup) : a = b := by
  refine List.Perm.eq_of_pairwise (fun x y hx hy hxy hyx ↦ ?_) haa hba (ha.trans hb.symm)
  exact List.inj_on_of_nodup_map hl (ha.mem_iff.1 hx) (hb.mem_iff.1 hy) (Nat.le_antisymm hxy hyx)

/-- Where no two stamps are the same, the size of the batches makes no difference. -/
theorem evictIfNeeded_withBatch (h : e.store.Coherent) (hb : e.store.batchSize ≠ 0)
    (hl : (e.store.residents.map (·.2.lastAccess)).Nodup) {n : UInt64} (hn : n ≠ 0) :
    (e.withBatch n).evictIfNeeded = e.evictIfNeeded.withBatch n := by
  have hnb : (e.withBatch n).store.batchSize ≠ 0 := fun hz ↦ hn (UInt64.toNat_inj.1 hz)
  by_cases ho : e.store.weightedSize ≤ e.store.capacity.toNat
  · rw [evictIfNeeded_of_le ho]
    exact evictIfNeeded_of_le ho
  · obtain ⟨order, hp, hage, he⟩ := evictIfNeeded_eq h hb (Nat.lt_of_not_le ho)
    obtain ⟨order', hp', hage', he'⟩ :=
      evictIfNeeded_eq (e := e.withBatch n) ⟨h.proper, h.weight⟩ hnb (Nat.lt_of_not_le ho)
    rw [he, he', byAge_unique hp' hp hage' hage hl]
    rfl

theorem get?_eraseAll {m : ShardedMap ChunkId Slot} (hm : m.Proper)
    (victims : List (ChunkId × Resident)) (k : ChunkId) :
    (victims.foldl (fun slots v ↦ slots.erase v.1) m).get? k =
      if k ∈ victims.map Prod.fst then none else m.get? k := by
  induction victims generalizing m with
  | nil => rfl
  | cons v victims ih =>
    simp only [List.foldl_cons, ih (hm.erase v.1), List.map_cons, List.mem_cons]
    by_cases hk : k = v.1
    · subst hk
      simp [ShardedMap.get?_erase_self hm.shards_pos]
    · simp only [ShardedMap.get?_erase_ne m (Ne.symm hk), hk, false_or]

theorem chunk?_unreferenceAll (m : Memory) {victims : List (ChunkId × Resident)}
    (hv : (victims.map (·.2.chunk)).Nodup) (c : ChunkRef) :
    (victims.foldl (fun m v ↦ m.unreference v.2.chunk) m).chunk? c =
      (m.chunk? c).map fun chunk ↦
        if c ∈ victims.map (·.2.chunk) then chunk.unreference.2 else chunk := by
  induction victims generalizing m with
  | nil => simp
  | cons v victims ih =>
    simp only [List.map_cons, List.nodup_cons] at hv
    simp only [List.foldl_cons, ih _ hv.2, List.map_cons, List.mem_cons]
    rcases hc : m.chunk? v.2.chunk with _ | chunk
    · have hsame : m.unreference v.2.chunk = m := by simp [Memory.unreference, hc]
      rw [hsame]
      by_cases he : c = v.2.chunk
      · simp [he, hc]
      · simp only [he, false_or]
    · rw [Memory.chunk?_unreference hc]
      by_cases he : c = v.2.chunk
      · simp [he, hc, hv.1]
      · simp only [Ne.symm he, if_false, he, false_or]

theorem size_unreferenceAll (m : Memory) (victims : List (ChunkId × Resident)) :
    (victims.foldl (fun m v ↦ m.unreference v.2.chunk) m).chunks.size = m.chunks.size := by
  induction victims generalizing m with
  | nil => rfl
  | cons v victims ih => exact (ih _).trans (Memory.size_unreference m v.2.chunk)

/-- A pass takes out the one that is older than all others, if it takes out any. -/
theorem evictIfNeeded_oldest (h : e.store.Coherent) (hb : e.store.batchSize ≠ 0)
    (ho : e.store.capacity.toNat < e.store.weightedSize)
    (ht : e.store.targetWeight < e.store.weightedSize) {v : ChunkId × Resident}
    (hv : v ∈ e.store.residents)
    (hold : ∀ x ∈ e.store.residents, x ≠ v → v.2.lastAccess < x.2.lastAccess) :
    e.evictIfNeeded.store.slots.get? v.1 = none := by
  obtain ⟨order, hp, hage, he⟩ := evictIfNeeded_eq h hb ho
  have hvo := hp.mem_iff.2 hv
  obtain ⟨first, rest, rfl⟩ := List.exists_cons_of_ne_nil (List.ne_nil_of_mem hvo)
  -- It comes first, and nothing has been taken out yet.
  have hfirst : v = first := by
    rcases List.mem_cons.1 hvo with rfl | hrest
    · rfl
    · by_contra hne
      have hlt := hold first (hp.mem_iff.1 List.mem_cons_self) (Ne.symm hne)
      have hle := (List.pairwise_cons.1 hage).1 v hrest
      omega
  rw [he, shedding, if_neg (Nat.not_le.2 ht), hfirst]
  exact (get?_eraseAll h.proper _ _).trans (if_pos List.mem_cons_self)

/-- From `e` to `e'` the chunks of `victims` are evicted and nothing else happens. -/
structure Evicts (e : Engine) (victims : List (ChunkId × Resident)) (e' : Engine) : Prop where
  slots : ∀ k, e'.store.slots.get? k =
    if k ∈ victims.map Prod.fst then none else e.store.slots.get? k
  weight : e'.store.weightedSize + weightOf victims = e.store.weightedSize
  counters : e'.store.counters =
    { e.store.counters with evictionsSize := e.store.counters.evictionsSize + victims.length }
  settings : e'.store.settings = e.store.settings
  clock : e'.store.clock = e.store.clock
  results : e'.store.results = e.store.results
  /-- The reference to a victim is given up, once. -/
  victim : ∀ v ∈ victims,
    e'.memory.chunk? v.2.chunk = (e.memory.chunk? v.2.chunk).map (·.unreference.2)
  others : ∀ c, (∀ v ∈ victims, v.2.chunk ≠ c) → e'.memory.chunk? c = e.memory.chunk? c

structure Kept (e : Engine) : Prop where
  own : (e.store.residents.map (·.2.chunk)).Nodup
  known : ∀ v ∈ e.store.residents, v.2.chunk < e.memory.chunks.size

theorem references_unreference {chunk : Chunk} (h : chunk.references ≠ 0) :
    chunk.unreference.2.references.toNat + 1 = chunk.references.toNat := by
  have hpos : chunk.references.toNat ≠ 0 := fun e ↦ h (UInt32.toNat_inj.1 e)
  by_cases hone : chunk.references = 1
  · simp [Chunk.unreference, hone]
  · simp only [Chunk.unreference, h, if_false, hone, UInt32.toNat_pred h]
    omega

theorem evicts_without (h : e.store.Coherent) (hk : e.Kept)
    {victims rest : List (ChunkId × Resident)} (hp : (victims ++ rest).Perm e.store.residents) :
    e.Evicts victims (e.without victims) := by
  have hown : (victims.map (·.2.chunk)).Nodup := by
    have hall := (hp.map (·.2.chunk)).nodup_iff.2 hk.own
    rw [List.map_append] at hall
    exact (List.nodup_append.1 hall).1
  have hweight : weightOf victims ≤ e.store.weightedSize := by
    rw [h.weight, ← weightOf_perm hp, weightOf_append]
    omega
  constructor
  case slots => exact get?_eraseAll h.proper victims
  case weight => exact Nat.sub_add_cancel hweight
  case counters => rfl
  case settings => rfl
  case clock => rfl
  case results => rfl
  case victim =>
    intro v hv
    have hmem : v.2.chunk ∈ victims.map (·.2.chunk) := List.mem_map_of_mem hv
    exact (chunk?_unreferenceAll e.memory hown v.2.chunk).trans (by simp only [hmem, if_true])
  case others =>
    intro c hc
    have hmem : c ∉ victims.map (·.2.chunk) := by simpa using hc
    exact (chunk?_unreferenceAll e.memory hown c).trans (by simp [hmem])

/-- From `e` to `e'` the shortest prefix of `order` is evicted without which the weight is at most
the target. -/
def EvictsFirst (e : Engine) (order : List (ChunkId × Resident)) (e' : Engine) : Prop :=
  ∃ n ≤ order.length,
    e.store.weightedSize - weightOf (order.take n) ≤ e.store.targetWeight ∧
    (∀ m < n, e.store.targetWeight < e.store.weightedSize - weightOf (order.take m)) ∧
    e.Evicts (order.take n) e'

/-- From `e` to `e'` a shortest prefix of the residents by age is evicted, such that the weight is
at most the target. -/
def EvictsByAge (e e' : Engine) : Prop :=
  ∃ order, order.Perm e.store.residents ∧ ByAge order ∧ e.EvictsFirst order e'

theorem evictsFirst_without (h : e.store.Coherent) (hk : e.Kept)
    {order : List (ChunkId × Resident)} (hp : order.Perm e.store.residents) :
    e.EvictsFirst order
      (e.without (shedding e.store.targetWeight e.store.weightedSize order)) := by
  have htake := shedding_eq_take e.store.targetWeight e.store.weightedSize order
  have hsplit := shedding_append_drop e.store.targetWeight e.store.weightedSize order
  have hmin (m : Nat) := shedding_min e.store.targetWeight e.store.weightedSize order (n := m)
  have henough : _ ≤ e.store.targetWeight := shedding_residents_enough h hp
  generalize shedding e.store.targetWeight e.store.weightedSize order = victims at *
  refine ⟨victims.length, ?_, htake ▸ henough, hmin, ?_⟩
  · rw [htake]
    exact List.length_take_le' _ _
  · rw [← htake]
    exact evicts_without h hk (by rw [hsplit]; exact hp)

theorem evictsByAge_evictIfNeeded (h : e.store.Coherent) (hk : e.Kept)
    (hb : e.store.batchSize ≠ 0) (ho : e.store.capacity.toNat < e.store.weightedSize) :
    e.EvictsByAge e.evictIfNeeded := by
  obtain ⟨order, hp, hage, he⟩ := evictIfNeeded_eq h hb ho
  refine ⟨order, hp, hage, ?_⟩
  rw [he]
  exact evictsFirst_without h hk hp

theorem evictsFirst_inOrder {order : List (ChunkId × Resident)} (h : e.store.Coherent)
    (hk : e.Kept) (hb : e.store.batchSize ≠ 0)
    (ho : e.store.capacity.toNat < e.store.weightedSize) (hp : order.Perm e.store.residents)
    (hage : ByAge order) :
    (e.withTies (inOrder order)).EvictsFirst order (e.withTies (inOrder order)).evictIfNeeded := by
  have hnodup : order.Nodup := hp.nodup_iff.2 hk.own.of_map
  rw [evictIfNeeded_inOrder h hb ho hnodup hp hage]
  exact evictsFirst_without (e := e.withTies (inOrder order)) ⟨h.proper, h.weight⟩
    ⟨hk.own, hk.known⟩ hp

theorem EvictsByAge.victim {e' : Engine} (h : e.EvictsByAge e') (hp : e.store.slots.Proper)
    {v : ChunkId × Resident} (hv : v ∈ e.store.residents)
    (hgone : e'.store.slots.get? v.1 = none) :
    e'.memory.chunk? v.2.chunk = (e.memory.chunk? v.2.chunk).map (·.unreference.2) := by
  obtain ⟨order, horder, -, n, -, -, -, hevicts⟩ := h
  have hget := (Store.mem_residents hp).1 hv
  have hkey : v.1 ∈ (order.take n).map Prod.fst := by
    by_contra hnot
    rw [hevicts.slots, if_neg hnot, hget] at hgone
    cases hgone
  obtain ⟨w, hw, hk⟩ := List.mem_map.1 hkey
  have hwget := (Store.mem_residents hp).1 (horder.mem_iff.1 (List.mem_of_mem_take hw))
  obtain rfl : w = v := by
    rw [hk, hget, Option.some.injEq, Slot.resident.injEq] at hwget
    exact Prod.ext hk hwget.symm
  exact hevicts.victim w hw

end Engine
end ReadCache
