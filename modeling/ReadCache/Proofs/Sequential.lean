import ReadCache.Proofs.Conservation
import ReadCache.Proofs.Exclusion
import ReadCache.Proofs.Uninterrupted

namespace ReadCache

open Relation

theorem Uninterrupted.unique {α : Type} {step : Shared → α → Option (α × Shared)}
    {a b c : α × Shared} (hb : Uninterrupted step a b) (hc : Uninterrupted step a c)
    (hbend : step b.2 b.1 = none) (hcend : step c.2 c.1 = none) : b = c := by
  have hunique : Relator.RightUnique fun a b : α × Shared ↦ step a.2 a.1 = some b := by
    intro x y z hy hz
    exact Option.some.inj (hy.symm.trans hz)
  rcases ReflTransGen.total_of_right_unique hunique hb hc with h | h
  · rcases h.cases_head with heq | ⟨d, hd, -⟩
    · exact heq
    · rw [hbend] at hd
      cases hd
  · rcases h.cases_head with heq | ⟨d, hd, -⟩
    · exact heq.symm
    · rw [hcend] at hd
      cases hd

namespace Call

def waiting : Call → Bool
  | get _ _ _ (.read ..) => true
  | direct _ _ _ (.read _) => true
  | c => c.ended

theorem waiting_of_ended {c : Call} (h : c.ended = true) : c.waiting = true := by
  cases c with
  | get k reader goal stage =>
    cases stage with
    | read => rfl
    | _ => exact h
  | direct asked k reader stage =>
    cases stage with
    | read => rfl
    | _ => exact h
  | _ => exact h

theorem owes_of_waiting {c : Call} (h : c.waiting = true) : c.owes = 0 := by
  cases c with
  | get k reader goal stage =>
    cases stage with
    | read => rfl
    | _ => exact owes_of_ended h
  | direct => rfl
  | _ => exact owes_of_ended h

end Call

namespace Traffic

/-- No call is in the middle of anything but a physical read. -/
def Between (t : Traffic) : Prop := ∀ c ∈ t.calls, c.waiting = true

/-- What can be reached from `t` if each call, once it has begun a step, goes on to its end or to
its physical read before anything else is done, and goes on after the read only when all calls made
meanwhile are over. -/
inductive Nested (t : Traffic) : Traffic → Prop where
  | refl : Nested t t
  | other {u v : Traffic} {m : Move} : Nested t u → u.Between →
      (∀ i conduct, m ≠ .advance i conduct) → u.step m = some v → Nested t v
  | advance {u v : Traffic} {i : Nat} {conduct : Conduct} : Nested t u →
      (∀ j c, u.calls[j]? = some c → j < i → c.waiting = true) →
      (∀ j c, u.calls[j]? = some c → i < j → c.ended = true) →
      u.step (.advance i conduct) = some v → Nested t v

end Traffic

def Shared.Bounded (s : Shared) : Prop :=
  s.store.weightedSize ≤ max s.store.capacity.toNat s.store.targetWeight

def Pass.Regular (s : Shared) (p : Pass) : Prop :=
  ∃ s₀ : Shared, s₀.store.Coherent ∧ s₀.store.batchSize ≠ 0 ∧ s₀.evicting = false ∧
    s₀.store.settings = s.store.settings ∧ Uninterrupted step (compare, s₀) (p, s)

def Call.Regular (s : Shared) : Call → Prop
  | get _ _ _ (.publish _ _ true) => s.evicting = false
  | get _ _ _ (.evict _ p) => p.Regular s
  | evict p => p.Regular s
  | _ => s.Bounded ∧ s.evicting = false

section
variable {s s' : Shared}

theorem Shared.Bounded.mono (h : s.Bounded) (hw : s'.store.weightedSize ≤ s.store.weightedSize)
    (hs : s'.store.settings = s.store.settings) : s'.Bounded := by
  have hc : s'.store.capacity = s.store.capacity := by simp only [Store.capacity, hs]
  have ht : s'.store.targetWeight = s.store.targetWeight := by
    simp only [Store.targetWeight, Store.capacity, hs]
  rw [Shared.Bounded, hc, ht]
  exact Nat.le_trans hw h

theorem Pass.Regular.bounded (h : left.Regular s) : s.Bounded ∧ s.evicting = false := by
  obtain ⟨s₀, hcoherent, hb, hfree, hset, hrun⟩ := h
  obtain ⟨s₁, hrun₁, heng, -, hev⟩ := Pass.uninterrupted hcoherent hb hfree
  have heq := congrArg Prod.snd (Uninterrupted.unique hrun hrun₁ rfl rfl)
  simp only at heq
  subst heq
  refine ⟨?_, hev⟩
  have hle := Engine.weightedSize_evictIfNeeded_le hcoherent hb
  have hc : s.store.capacity = s₀.store.capacity := by simp only [Store.capacity, hset]
  have ht : s.store.targetWeight = s₀.store.targetWeight := by
    simp only [Store.targetWeight, Store.capacity, hset]
  rw [Shared.Bounded, hc, ht, Shared.store, heng]
  exact hle

theorem Pass.Regular.step {p q : Pass} (hp : s.store.slots.Proper) (h : p.Regular s)
    (hs : p.step s = some (q, s')) : q.Regular s' := by
  obtain ⟨s₀, hcoherent, hb, hfree, hset, hrun⟩ := h
  exact ⟨s₀, hcoherent, hb, hfree, hset.trans (Pass.step_proceeds hp hs).settings.symm,
    hrun.tail hs⟩

theorem Pass.Regular.start (hcoherent : s.store.Coherent) (hb : s.store.batchSize ≠ 0)
    (hfree : s.evicting = false) : compare.Regular s := ⟨s, hcoherent, hb, hfree, rfl, .refl⟩

theorem Call.Regular.of_waiting {c : Call} (hc : c.waiting = true) (h : c.Regular s) :
    s.Bounded ∧ s.evicting = false := by
  cases c with
  | get k reader goal stage =>
    cases stage with
    | publish t chunk settled => cases goal <;> cases hc
    | evict chunk p => cases goal <;> cases hc
    | _ => exact h
  | evict p =>
    cases p with
    | left => exact Pass.Regular.bounded h
    | _ => cases hc
  | _ => exact h

theorem Call.Regular.resume {c : Call} (hc : c.waiting = true) (h : s.Bounded ∧ s.evicting = false)
    {conduct : Conduct} {x : Call × Shared} (hs : c.step conduct s = some x) : c.Regular s := by
  cases c with
  | get k reader goal stage =>
    cases stage with
    | publish t chunk settled => cases goal <;> cases hc
    | evict chunk p => cases goal <;> cases hc
    | _ => exact h
  | evict p =>
    cases p with
    | left => cases hs
    | _ => cases hc
  | _ => exact h

theorem Call.Regular.of_bounded {k : ChunkId} {reader : Nat} {goal : Goal} {x : Stage}
    (hx : x.pass? = none) (h : s.Bounded ∧ s.evicting = false) :
    Call.Regular s (.get k reader goal x) := by
  cases x with
  | publish t chunk settled =>
    cases settled
    · exact h
    · exact h.2
  | evict chunk p => cases hx
  | _ => exact h

theorem Stage.regular_step {k : ChunkId} {c : Conduct} {reader : Nat} {goal : Goal}
    {x x' : Stage} (hp : s.store.slots.Proper) (hb : s.store.batchSize ≠ 0)
    (hw : s.store.weightedSize = s.store.residentWeight + x.owes)
    (h : Call.Regular s (.get k reader goal x)) (hs : x.step k c s = some (x', s')) :
    Call.Regular s' (.get k reader goal x') := by
  have hcalm (hx : x.pass? = none) (hpublish : ∀ t chunk, x ≠ publish t chunk true)
      (h : s.Bounded ∧ s.evicting = false) : Call.Regular s' (.get k reader goal x') := by
    obtain ⟨hadds, hnext⟩ := step_adds hp hx hs
    have hev := hadds.evicting
    rcases step_proceeds hp hs with hpr | ⟨hadmitted, -⟩
    · rcases hnext with hnone | ⟨⟨t, chunk, he⟩, -⟩
      · exact .of_bounded hnone ⟨h.1.mono hpr.bound hpr.settings, hev.trans h.2⟩
      · exact absurd he (hpublish t chunk)
    · cases x' with
      | publish t chunk settled =>
        cases settled
        · exact hadmitted.elim
        · exact hev.trans h.2
      | _ => exact hadmitted.elim
  cases x with
  | publish t chunk settled =>
    cases settled
    · exact hcalm rfl (by simp) h
    · cases hs
      exact Pass.Regular.start ⟨hp, hw.trans (Store.residentWeight_eq _)⟩ hb h
  | evict chunk p =>
    rcases evict_cases hs with ⟨rfl, rfl, rfl⟩ | ⟨q, hq, rfl⟩
    · exact Pass.Regular.bounded h
    · exact Pass.Regular.step hp h hq
  | _ => exact hcalm rfl (by simp) h

theorem Call.regular_step {c : Conduct} {x x' : Call} (hp : s.store.slots.Proper)
    (hb : s.store.batchSize ≠ 0)
    (hw : s.store.weightedSize = s.store.residentWeight + x.owes) (h : x.Regular s)
    (hs : x.step c s = some (x', s')) : x'.Regular s' := by
  have hcalm {n n' : Nat} (hpr : s.Proceeds s' n n') (hsp : s.Spares s')
      (h : s.Bounded ∧ s.evicting = false) : s'.Bounded ∧ s'.evicting = false :=
    ⟨h.1.mono hpr.bound hpr.settings, hsp.evicting.trans h.2⟩
  cases steps hs with
  | stage hq => exact Stage.regular_step hp hb hw h hq
  | direct hq => exact hcalm (Direct.step_proceeds hp hq) (Direct.step_adds hq).toSpares h
  | invalidate hq => exact hcalm (Removal.step_proceeds hp hq) (Removal.step_spares hq) h
  | sweep hq => exact hcalm (Sweep.step_proceeds hp hq) (Sweep.step_spares hq) h
  | evict hq => exact Pass.Regular.step hp h hq
  | take | retry | exhaust | overflow => exact h

end

namespace Traffic
variable {t u : Traffic}

/-- At most one call is in the middle of something, and that is regular. -/
structure Regular (t : Traffic) : Prop where
  between : t.Between → t.shared.Bounded ∧ t.shared.evicting = false
  turn : ∀ (i : Nat) (c : Call), t.calls[i]? = some c → c.waiting = false →
    (∀ (j : Nat) (c' : Call), t.calls[j]? = some c' → j ≠ i → c'.waiting = true) ∧ c.Regular t.shared

theorem owes_of_between (h : t.Between) : t.owes = 0 := by
  refine List.sum_eq_zero_iff_forall_eq_nat.2 fun n hn ↦ ?_
  obtain ⟨c, hc, rfl⟩ := List.mem_map.1 hn
  exact Call.owes_of_waiting (h c hc)

theorem regular_of_initial (h : t.Initial) : t.Regular := by
  refine ⟨fun _ ↦ ⟨?_, h.evicting⟩, fun i c hi ↦ ?_⟩
  · rw [Shared.Bounded, weightedSize_of_initial h]
    exact Nat.zero_le _
  · rw [h.calls] at hi
    cases hi

theorem start_regular {s : Shared} (hcoherent : s.store.Coherent) (hb : s.store.batchSize ≠ 0)
    (h : s.Bounded ∧ s.evicting = false) (c : Start) : c.call.Regular s := by
  cases c with
  | rebuffer a reader position =>
    simp only [Start.call, Call.rebuffer]
    split
    · apply Call.Regular.of_bounded _ h
      split <;> rfl
    · exact h
  | evict => exact Pass.Regular.start hcoherent hb h.2
  | _ => exact h

theorem owes_of_others {i : Nat} {c : Call} (hi : t.calls[i]? = some c)
    (hothers : ∀ (j : Nat) (c : Call), t.calls[j]? = some c → j ≠ i → c.waiting = true) :
    t.owes = c.owes := by
  obtain ⟨hlt, rfl⟩ := List.getElem?_eq_some_iff.1 hi
  have hsum := ((List.getElem_cons_eraseIdx_perm hlt).map Call.owes).sum_nat
  have hzero : ((t.calls.eraseIdx i).map Call.owes).sum = 0 := by
    refine List.sum_eq_zero_iff_forall_eq_nat.2 fun n hn ↦ ?_
    obtain ⟨x, hx, rfl⟩ := List.mem_map.1 hn
    obtain ⟨j, hj, hjx⟩ := List.mem_eraseIdx_iff_getElem?.1 hx
    exact Call.owes_of_waiting (hothers j x hjx hj)
  rw [List.map_cons, List.sum_cons, hzero, Nat.add_zero] at hsum
  exact hsum.symm

theorem advance_regular {i : Nat} {conduct : Conduct} (hw : t.Weighed)
    (hb : t.shared.store.batchSize ≠ 0) (h : t.Regular)
    (hothers : ∀ (j : Nat) (c : Call), t.calls[j]? = some c → j ≠ i → c.waiting = true)
    (hs : t.step (.advance i conduct) = some u) : u.Regular := by
  obtain ⟨c, c', s, hi, hstep, rfl⟩ := advance_cases hs
  -- Either it is the turn of the call, or it goes on from its read with nobody else at work.
  have hregular : c.Regular t.shared := by
    rcases hwait : c.waiting with _ | _
    · exact (h.turn i c hi hwait).2
    · refine Call.Regular.resume hwait (h.between fun x hx ↦ ?_) hstep
      obtain ⟨j, hj⟩ := List.mem_iff_getElem?.1 hx
      by_cases he : j = i
      · subst he
        cases hi.symm.trans hj
        exact hwait
      · exact hothers j x hj he
  have hweight := hw.weight
  rw [owes_of_others hi hothers] at hweight
  have hregular' := Call.regular_step hw.proper hb hweight hregular hstep
  have hlt := (List.getElem?_eq_some_iff.1 hi).1
  have hat : (t.calls.set i c')[i]? = some c' := List.getElem?_set_self hlt
  refine ⟨fun hbetween ↦ ?_, fun j x hj hx ↦ ?_⟩
  · exact hregular'.of_waiting (hbetween c' (List.mem_of_getElem? hat))
  · by_cases he : j = i
    · subst he
      cases hat.symm.trans hj
      refine ⟨fun k y hk hne ↦ ?_, hregular'⟩
      rw [List.getElem?_set_ne (Ne.symm hne)] at hk
      exact hothers k y hk hne
    · rw [List.getElem?_set_ne (Ne.symm he)] at hj
      rw [hothers j x hj he] at hx
      cases hx

theorem other_regular {m : Move} (hw : t.Weighed) (hb : t.shared.store.batchSize ≠ 0)
    (h : t.Regular) (hbetween : t.Between) (hm : ∀ i conduct, m ≠ .advance i conduct)
    (hs : t.step m = some u) : u.Regular := by
  rcases step_cases hs with ⟨i, conduct, rfl⟩ | ⟨hcalls, hslots, hweight, hset, -, hev⟩
  · exact absurd rfl (hm i conduct)
  have hbounded : u.shared.Bounded ∧ u.shared.evicting = false :=
    ⟨(h.between hbetween).1.mono (Nat.le_of_eq hweight) hset,
      hev.trans (h.between hbetween).2⟩
  refine ⟨fun _ ↦ hbounded, fun i x hi hx ↦ ?_⟩
  have hold (j : Nat) (y : Call) (hj : t.calls[j]? = some y) : y.waiting = true :=
    hbetween y (List.mem_of_getElem? hj)
  rcases hcalls with he | ⟨c, he⟩ <;> rw [he] at hi ⊢
  · rw [hold i x hi] at hx
    cases hx
  · have hcoherent : u.shared.store.Coherent := by
      refine ⟨hslots ▸ hw.proper, ?_⟩
      rw [hweight, hw.weight, owes_of_between hbetween, Store.residentWeight_eq]
      simp only [Store.residents, hslots, Nat.add_zero]
    have hbatch : u.shared.store.batchSize ≠ 0 := by
      simpa only [Store.batchSize, hset] using hb
    -- Only a call that has just begun is in the middle of something.
    rcases Nat.lt_trichotomy i t.calls.length with hlt | heq | hgt
    · rw [List.getElem?_append_left hlt] at hi
      rw [hold i x hi] at hx
      cases hx
    · subst heq
      rw [List.getElem?_concat_length] at hi
      cases hi
      refine ⟨fun j y hj hne ↦ ?_, start_regular hcoherent hbatch hbounded c⟩
      have hj' : j < t.calls.length := by
        have hlt := (List.getElem?_eq_some_iff.1 hj).1
        rw [List.length_append, List.length_singleton] at hlt
        omega
      rw [List.getElem?_append_left hj'] at hj
      exact hold j y hj
    · rw [List.getElem?_eq_none (by simp; omega)] at hi
      cases hi

theorem regular_of_nested (ht : t.Initial) (hb : t.shared.store.batchSize ≠ 0)
    (h : t.Nested u) :
    u.Weighed ∧ u.shared.store.settings = t.shared.store.settings ∧ u.Regular := by
  have hbatch {u : Traffic} (hset : u.shared.store.settings = t.shared.store.settings) :
      u.shared.store.batchSize ≠ 0 := by
    simpa only [Store.batchSize, hset] using hb
  induction h with
  | refl => exact ⟨weighed_of_initial ht, rfl, regular_of_initial ht⟩
  | other _ hbetween hm hs ih =>
    obtain ⟨hw, hset, hregular⟩ := ih
    exact ⟨step_weighed hw hs, (settings_of_step hw hs).trans hset,
      other_regular hw (hbatch hset) hregular hbetween hm hs⟩
  | advance _ hbefore hafter hs ih =>
    obtain ⟨hw, hset, hregular⟩ := ih
    refine ⟨step_weighed hw hs, (settings_of_step hw hs).trans hset,
      advance_regular hw (hbatch hset) hregular (fun j c hj hne ↦ ?_) hs⟩
    rcases Nat.lt_or_gt_of_ne hne with hlt | hgt
    · exact hbefore j c hj hlt
    · exact Call.waiting_of_ended (hafter j c hj hgt)

/-- Between the operations of a sequential run the weight is within the capacity, or within the
target where that is more. -/
theorem bounded_of_nested (ht : t.Initial) (hb : t.shared.store.batchSize ≠ 0) (h : t.Nested u)
    (hbetween : u.Between) : u.shared.Bounded :=
  ((regular_of_nested ht hb h).2.2.between hbetween).1

/-- No call has a chunk on its way out of the table, and no pass is running. -/
structure Undisturbed (t : Traffic) : Prop where
  held : t.held = []
  owes : t.owes = 0
  free : t.shared.evicting = false

theorem coherent_of_undisturbed (hw : t.Weighed) (h : t.Undisturbed) :
    t.shared.store.Coherent where
  proper := hw.proper
  weight := by rw [hw.weight, h.owes, Nat.add_zero, Store.residentWeight_eq]

theorem referenced_of_resident (ha : t.Accounted) {v : ChunkId × Resident}
    (hv : v ∈ t.shared.store.residents) :
    ∃ chunk, t.shared.memory.chunk? v.2.chunk = some chunk ∧ chunk.references ≠ 0 := by
  have hchunks : t.shared.store.chunks = t.shared.store.residents.map (·.2.chunk) := by
    simp only [Store.chunks, Store.entries, List.map_map]
    rfl
  have hmem : v.2.chunk ∈ t.shared.refs t.held := by
    rw [Shared.refs, List.append_assoc, hchunks]
    exact List.mem_append_left _ (List.mem_map_of_mem hv)
  obtain ⟨chunk, hc⟩ := Memory.exists_chunk (ha.ledger.counts.known _ hmem)
  refine ⟨chunk, hc, fun hz ↦ ?_⟩
  have hcount := ha.ledger.counts.count _ chunk hc
  have hpos := List.count_pos_iff.2 hmem
  rw [hz] at hcount
  exact absurd hcount.symm (Nat.ne_of_gt hpos)

end Traffic
end ReadCache
