import ReadCache.Proofs.History
import ReadCache.Proofs.Sequential

namespace ReadCache

/-- The call that moves is the only one that is in the middle of something but a physical read, and
what was called after it is over. -/
def Tick.inTurn (x : Tick) : Bool :=
  match x.move with
  | .advance i _ =>
    (x.before.calls.take i).all Call.waiting && (x.before.calls.drop (i + 1)).all Call.ended
  | _ => x.before.calls.all Call.waiting

namespace Traffic
variable {t u v : Traffic} {log : List Tick}

/-- A sequential run from `t`, move by move. -/
structure InTurn (t : Traffic) (log : List Tick) (v : Traffic) : Prop where
  records : Records t log v
  turns : ∀ x ∈ log, x.inTurn = true

theorem nested_of_inTurn (h : t.InTurn log v) : t.Nested v := by
  obtain ⟨hrec, hturns⟩ := h
  induction hrec with
  | nil => exact .refl
  | @snoc log u v m hrec hs ih =>
    have hu : t.Nested u := ih fun x hx ↦ hturns x (List.mem_append_left _ hx)
    have hturn := hturns ⟨u, m, v⟩ (List.mem_append_right _ List.mem_cons_self)
    cases m with
    | advance i conduct =>
      simp only [Tick.inTurn, Bool.and_eq_true, List.all_eq_true] at hturn
      refine .advance hu (fun j c hj hlt ↦ hturn.1 c ?_) (fun j c hj hlt ↦ hturn.2 c ?_) hs
      · refine List.mem_of_getElem? (i := j) ?_
        rw [List.getElem?_take_of_lt hlt]
        exact hj
      · refine List.mem_of_getElem? (i := j - (i + 1)) ?_
        rw [List.getElem?_drop, Nat.add_sub_cancel' hlt]
        exact hj
    | _ => exact .other hu (List.all_eq_true.1 hturn) (by simp) hs

theorem exists_inTurn (h : t.Nested v) : ∃ log, t.InTurn log v := by
  have hsnoc {u v : Traffic} {m : Move} (hu : ∃ log, t.InTurn log u) (hs : u.step m = some v)
      (hturn : (⟨u, m, v⟩ : Tick).inTurn = true) : ∃ log, t.InTurn log v := by
    obtain ⟨log, hrec, hturns⟩ := hu
    refine ⟨_, .snoc hrec hs, fun x hx ↦ ?_⟩
    rcases List.mem_append.1 hx with hx | hx
    · exact hturns x hx
    · rwa [List.mem_singleton.1 hx]
  induction h with
  | refl => exact ⟨[], .nil, by simp⟩
  | @other u v m _ hbetween hm hs ih =>
    apply hsnoc ih hs
    have hall : u.calls.all Call.waiting = true := List.all_eq_true.2 hbetween
    cases m with
    | advance i conduct => exact absurd rfl (hm i conduct)
    | _ => exact hall
  | @advance u v i conduct _ hbefore hafter hs ih =>
    apply hsnoc ih hs
    simp only [Tick.inTurn, Bool.and_eq_true, List.all_eq_true]
    constructor
    · intro c hc
      obtain ⟨j, hj⟩ := List.mem_iff_getElem?.1 hc
      rw [List.getElem?_take] at hj
      split at hj
      · exact hbefore j c hj ‹_›
      · cases hj
    · intro c hc
      obtain ⟨j, hj⟩ := List.mem_iff_getElem?.1 hc
      rw [List.getElem?_drop] at hj
      exact hafter _ c hj (by omega)

end Traffic

/-- A chunk becomes resident, or it is asked for while it is. -/
inductive ChunkUse where
  | entry (k : ChunkId)
  | hit (k : ChunkId)
  deriving DecidableEq

def Stage.use? (k : ChunkId) : Stage → Stage → Option ChunkUse
  | settle .., publish _ _ true => some (.entry k)
  | seek, answered (.ok _) => some (.hit k)
  | claim, answered (.ok _) => some (.hit k)
  | _, _ => none

def Call.use? : Call → Call → Option ChunkUse
  | get k _ _ stage, get _ _ _ stage' => stage.use? k stage'
  | _, _ => none

def Tick.use? (x : Tick) : Option ChunkUse :=
  match x.came?, x.went? with
  | some c, some c' => c.use? c'
  | _, _ => none

def Tick.enters (x : Tick) : Bool := x.use?.any fun use ↦ use matches .entry _

def entered (log : List Tick) : Nat := log.countP Tick.enters

def upTo (use : ChunkUse) (log : List Tick) : List Tick := log.rdropWhile fun x ↦ x.use? ≠ some use

/-- How many chunks had become resident when the one at `k` did, or when it was last hit. A hit
before its entry was of another chunk, and counts for no more than the entry. -/
def lastUse (k : ChunkId) (log : List Tick) : Nat :=
  max (entered (upTo (.entry k) log).dropLast) (entered (upTo (.hit k) log))

section
variable {k : ChunkId} {use : ChunkUse} {log : List Tick} {x : Tick}

theorem entered_mono {log log' : List Tick} (h : log <+: log') : entered log ≤ entered log' :=
  h.sublist.countP_le

theorem entered_upTo_le (use : ChunkUse) (log : List Tick) : entered (upTo use log) ≤ entered log :=
  entered_mono (List.rdropWhile_prefix _ _)

theorem upTo_snoc_self (h : x.use? = some use) : upTo use (log ++ [x]) = log ++ [x] :=
  List.rdropWhile_concat_neg _ _ _ (by simp [h])

theorem upTo_snoc_other (h : x.use? ≠ some use) : upTo use (log ++ [x]) = upTo use log :=
  List.rdropWhile_concat_pos _ _ _ (by simp [h])

theorem entered_snoc_entry (h : x.use? = some (.entry k)) :
    entered (log ++ [x]) = entered log + 1 := by
  simp [entered, Tick.enters, h]

theorem entered_snoc_other (h : ∀ k, x.use? ≠ some (.entry k)) :
    entered (log ++ [x]) = entered log := by
  have hx : x.enters = false := by
    simp only [Tick.enters]
    rcases hu : x.use? with _ | (k | k)
    · rfl
    · exact absurd hu (h k)
    · rfl
  simp [entered, hx]

theorem lastUse_le (k : ChunkId) (log : List Tick) : lastUse k log ≤ entered log := by
  apply Nat.max_le.2
  constructor
  · exact (entered_mono (List.dropLast_prefix _)).trans (entered_upTo_le _ _)
  · exact entered_upTo_le _ _

theorem lastUse_snoc_entry (h : x.use? = some (.entry k)) :
    lastUse k (log ++ [x]) = entered log := by
  have hne : x.use? ≠ some (.hit k) := by simp [h]
  rw [lastUse, upTo_snoc_self h, upTo_snoc_other hne, List.dropLast_concat]
  exact Nat.max_eq_left (entered_upTo_le _ _)

theorem lastUse_snoc_hit (h : x.use? = some (.hit k)) : lastUse k (log ++ [x]) = entered log := by
  have hne : x.use? ≠ some (.entry k) := by simp [h]
  have hsame : entered (log ++ [x]) = entered log := entered_snoc_other fun k' ↦ by simp [h]
  rw [lastUse, upTo_snoc_other hne, upTo_snoc_self h, hsame]
  apply Nat.max_eq_right
  exact (entered_mono (List.dropLast_prefix _)).trans (entered_upTo_le _ _)

theorem lastUse_snoc_other (hentry : x.use? ≠ some (.entry k)) (hhit : x.use? ≠ some (.hit k)) :
    lastUse k (log ++ [x]) = lastUse k log := by
  rw [lastUse, upTo_snoc_other hentry, upTo_snoc_other hhit, lastUse]

end

namespace Store

def stamp? (s : Store) (k : ChunkId) : Option Nat :=
  (s.slots.get? k).bind fun slot ↦ slot.resident?.map Resident.lastAccess

/-- How a step leaves clock and stamps, by the use that it is. -/
def Stamps (s s' : Store) : Option ChunkUse → Prop
  | none => s'.clock = s.clock ∧ ∀ k n, s'.stamp? k = some n → s.stamp? k = some n
  | some (.entry k) =>
    s'.clock = s.clock + 1 ∧ s'.stamp? = Function.update s.stamp? k (some s.clock)
  | some (.hit k) =>
    s'.clock = s.clock ∧ ∃ n, s.stamp? k = some n ∧
      s'.stamp? = Function.update s.stamp? k (some (max n s.clock))

variable {s s' : Store} {k : ChunkId}

theorem stamp?_eq_some {n : Nat} : s.stamp? k = some n ↔
    ∃ r, s.slots.get? k = some (.resident r) ∧ r.lastAccess = n := by
  rw [stamp?]
  rcases s.slots.get? k with _ | (r | t) <;> simp [Slot.resident?]

theorem stamp?_of_slots (h : s'.slots = s.slots) : s'.stamp? = s.stamp? := by
  funext k
  rw [stamp?, stamp?, h]

theorem stamp?_insert (hp : s.slots.Proper) (k : ChunkId) (slot : Slot)
    (h : s'.slots = s.slots.insert k slot) :
    s'.stamp? = Function.update s.stamp? k (slot.resident?.map Resident.lastAccess) := by
  funext k'
  rw [stamp?, h, Function.update_apply]
  split
  · subst k'
    rw [ShardedMap.get?_insert_self hp.shards_pos]
    rfl
  · rename_i hne
    rw [ShardedMap.get?_insert_ne _ _ (Ne.symm hne)]
    rfl

theorem Stamps.of_slots (h : s'.slots = s.slots) (hc : s'.clock = s.clock) : s.Stamps s' none :=
  ⟨hc, fun k n hk ↦ by rwa [stamp?_of_slots h] at hk⟩

theorem Stamps.of_get? (hc : s'.clock = s.clock)
    (h : ∀ k, s'.slots.get? k = none ∨ s'.slots.get? k = s.slots.get? k) : s.Stamps s' none := by
  refine ⟨hc, fun k n hk ↦ ?_⟩
  rcases h k with he | he
  · simp [stamp?, he] at hk
  · rwa [stamp?, he] at hk

theorem stamps_erase (hp : s.slots.Proper) (k : ChunkId) :
    s.Stamps { s with slots := s.slots.erase k } none := by
  refine Stamps.of_get? rfl fun k' ↦ ?_
  by_cases he : k = k'
  · subst he
    exact .inl (ShardedMap.get?_erase_self hp.shards_pos k)
  · exact .inr (ShardedMap.get?_erase_ne _ he)

theorem stamps_clearLoad (hp : s.slots.Proper) (k : ChunkId) (t : Ticket) :
    s.Stamps (s.clearLoad k t) none := by
  unfold clearLoad
  split
  · exact stamps_erase hp k
  · exact .of_slots rfl rfl

theorem stamps_detachMatching (hp : s.slots.Proper) (i : Nat) (matches? : ChunkId → Bool) :
    s.Stamps (s.detachMatching i matches?).2 none := by
  refine Stamps.of_get? rfl fun k ↦ ?_
  rw [detachMatching, ShardedMap.get?_filterShard hp.shards_pos i (fun k ↦ !matches? k)]
  split
  · exact .inl rfl
  · exact .inr rfl

theorem stamps_touch (hp : s.slots.Proper) {r : Resident}
    (hr : s.slots.get? k = some (.resident r)) : s.Stamps (s.touch k r) (some (.hit k)) := by
  have hk : s.stamp? k = some r.lastAccess := stamp?_eq_some.2 ⟨r, hr, rfl⟩
  unfold touch
  split
  · rename_i hlt
    refine ⟨rfl, r.lastAccess, hk, ?_⟩
    rw [Nat.max_eq_right (Nat.le_of_lt hlt)]
    exact stamp?_insert hp k (.resident { r with lastAccess := s.clock }) rfl
  · rename_i hge
    refine ⟨rfl, r.lastAccess, hk, ?_⟩
    rw [Nat.max_eq_left (Nat.le_of_not_lt hge)]
    exact (Function.update_eq_self_iff.2 hk.symm).symm

theorem stamps_insert_loading (hp : s.slots.Proper) (k : ChunkId) (t : Ticket)
    (h : s'.slots = s.slots.insert k (.loading t)) (hc : s'.clock = s.clock) : s.Stamps s' none := by
  refine ⟨hc, fun k' n hn ↦ ?_⟩
  rw [stamp?_insert hp k (.loading t) h, Function.update_apply] at hn
  split at hn
  · cases hn
  · exact hn

theorem stamps_settle (hp : s.slots.Proper) {t : Ticket} (ho : s.owns k t = true) (c : ChunkRef)
    (w : Nat) : s.Stamps (s.settle k t c w).2 (some (.entry k)) := by
  simp only [settle, ho, if_true]
  exact ⟨rfl, stamp?_insert hp k (.resident ⟨c, w, s.clock⟩) rfl⟩

theorem Stamps.record {use : Option ChunkUse} (h : s.Stamps s' use) (e : Event) :
    s.Stamps (s'.record e) use := by
  have hsame : (s'.record e).stamp? = s'.stamp? := stamp?_of_slots rfl
  cases use with
  | none => exact ⟨h.1, hsame ▸ h.2⟩
  | some use => cases use <;> exact ⟨h.1, hsame ▸ h.2⟩

end Store

section
variable {s s' : Shared}

theorem Shared.stamps_of_engine (he : s'.store = s.store) : s.store.Stamps s'.store none :=
  .of_slots (by rw [he]) (by rw [he])

theorem Shared.Drops.stamps (hs : s.Drops s') (hp : s.store.slots.Proper) :
    s.store.Stamps s'.store none := by
  cases hs with
  | detach k => exact Store.stamps_erase hp k
  | clear shard matches? => exact Store.stamps_detachMatching hp shard matches?
  | pass | discount | retire => exact .of_slots rfl rfl

theorem Stage.step_stamps {k : ChunkId} {c : Conduct} {x x' : Stage} (hp : s.store.slots.Proper)
    (hs : x.step k c s = some (x', s')) : s.store.Stamps s'.store (x.use? k x') := by
  cases steps hs with
  | hit hr | hitLate hr => exact (Store.stamps_touch hp hr).record .hit
  | begin hn =>
    rw [Store.claim_of_free hn]
    exact Store.stamps_insert_loading hp k _ rfl rfl
  | borrow | refuse => exact Shared.stamps_of_engine (c.store_acquire _ _ s)
  | settle ho => exact Store.stamps_settle hp ho _ _
  | pass hq => exact (Pass.step_drops hq).stamps hp
  | @clear t f =>
    have hclear := Store.stamps_clearLoad (s := f.counted s.store)
      ((f.slots_counted s.store).symm ▸ hp) k t
    cases f <;> exact hclear
  | _ => exact .of_slots rfl rfl

theorem Call.step_stamps {c : Conduct} {x x' : Call} (hp : s.store.slots.Proper)
    (hs : x.step c s = some (x', s')) : s.store.Stamps s'.store (x.use? x') := by
  cases steps hs with
  | stage hq => exact Stage.step_stamps hp hq
  | direct hq =>
    cases Direct.steps hq with
    | borrow | refuse => exact Shared.stamps_of_engine (c.store_acquire _ _ s)
    | arrive | fail => exact .of_slots rfl rfl
  | invalidate hq => exact (Removal.step_drops hq).stamps hp
  | sweep hq => exact (Sweep.step_drops hq).stamps hp
  | evict hq => exact (Pass.step_drops hq).stamps hp
  | take | retry | exhaust | overflow => exact .of_slots rfl rfl

end

namespace Traffic
variable {t u v : Traffic} {log : List Tick}

theorem step_stamps {m : Move} (hp : t.shared.store.slots.Proper) (hs : t.step m = some u) :
    t.shared.store.Stamps u.shared.store (⟨t, m, u⟩ : Tick).use? := by
  cases steps hs with
  | advance hi hstep =>
    simp only [Tick.use?, came?_advance hi, went?_advance hi]
    exact Call.step_stamps hp hstep
  | _ => exact .of_slots rfl rfl

/-- The clock counts what became resident, and each stamp is that count at the last use. -/
structure Exact (log : List Tick) (s : Store) : Prop where
  clock : s.clock = entered log
  stamp : ∀ k n, s.stamp? k = some n → n = lastUse k log

theorem Exact.snoc {x : Tick} {s s' : Store} (h : Exact log s) (hs : s.Stamps s' x.use?) :
    Exact (log ++ [x]) s' := by
  rcases hu : x.use? with _ | (k | k) <;> rw [hu] at hs <;> obtain ⟨hclock, hstamp⟩ := hs
  case none =>
    refine ⟨?_, fun k n hk ↦ ?_⟩
    · rw [entered_snoc_other (by simp [hu]), hclock]
      exact h.clock
    · rw [lastUse_snoc_other (by simp [hu]) (by simp [hu])]
      exact h.stamp k n (hstamp k n hk)
  case some.entry =>
    refine ⟨?_, fun k' n hk ↦ ?_⟩
    · rw [entered_snoc_entry hu, hclock, h.clock]
    · rw [hstamp, Function.update_apply] at hk
      split at hk
      · subst k'
        cases hk
        rw [lastUse_snoc_entry hu]
        exact h.clock
      · rename_i hne
        rw [lastUse_snoc_other (by simpa [hu] using Ne.symm hne) (by simp [hu])]
        exact h.stamp k' n hk
  case some.hit =>
    obtain ⟨old, hold, hstamp⟩ := hstamp
    refine ⟨?_, fun k' n hk ↦ ?_⟩
    · rw [entered_snoc_other (by simp [hu]), hclock]
      exact h.clock
    · rw [hstamp, Function.update_apply] at hk
      split at hk
      · subst k'
        cases hk
        rw [lastUse_snoc_hit hu, ← h.clock]
        -- No stamp is ahead of the clock, so a hit moves it up to the clock.
        apply Nat.max_eq_right
        rw [h.stamp k old hold, h.clock]
        exact lastUse_le k log
      · rename_i hne
        rw [lastUse_snoc_other (by simp [hu]) (by simpa [hu] using Ne.symm hne)]
        exact h.stamp k' n hk

theorem exact_of_records (ht : t.Initial) (h : Records t log v) : Exact log v.shared.store := by
  refine h.invariant (P := fun log v ↦ Exact log v.shared.store) ht.proper ?_ ?_
  · obtain ⟨settings, hash, hstore⟩ := ht.store
    refine ⟨by rw [Store.create?_eq hstore]; rfl, fun k n hk ↦ ?_⟩
    have hnone := Store.occupant?_eq_none.1 (ht.occupant? k)
    simp [Store.stamp?, hnone] at hk
  · intro log u m v hp ih hs
    exact ih.snoc (step_stamps hp hs)

end Traffic

theorem Pass.step_ne_compare {p : Pass} {s s' : Shared} : p.step s ≠ some (compare, s') := by
  intro h
  cases steps h

def Pass.barren : Pass → Bool
  | pick b => b.rest.isEmpty
  | take .. | discount .. | retire .. => false
  | _ => true

theorem Pass.store_of_empty_batches {p : Pass} {s s' : Shared} (hb : s.store.batchSize = 0)
    (h : Uninterrupted step (compare, s) (p, s')) : s'.store = s.store ∧ p.barren = true := by
  generalize he : (p, s') = x at h
  -- With empty batches the pass never comes to a candidate.
  induction h generalizing p s' with
  | refl =>
    cases he
    exact ⟨rfl, rfl⟩
  | @tail y x _ hs ih =>
    obtain ⟨q, s₁⟩ := y
    subst he
    obtain ⟨hstore, hbarren⟩ := ih rfl
    rw [← hstore] at hb ⊢
    cases steps hs with
    | sort => exact ⟨rfl, by simp [barren, batchOf, Store.leastRecent, hb]⟩
    | next hrest =>
      rw [List.isEmpty_iff.1 hbarren] at hrest
      cases hrest
    | take | gone | discount | retire => cases hbarren
    | _ => exact ⟨rfl, rfl⟩

namespace Engine
variable {e : Engine}

/-- What is evicted was used no later than what is kept. -/
theorem evictIfNeeded_keeps_recent (h : e.store.Coherent) (hb : e.store.batchSize ≠ 0)
    {k k' : ChunkId} {n n' : Nat} (hk : e.store.stamp? k = some n)
    (hgone : e.evictIfNeeded.store.stamp? k = none)
    (hkept : e.evictIfNeeded.store.stamp? k' = some n') : n ≤ n' ∧ e.store.stamp? k' = some n' := by
  by_cases ho : e.store.weightedSize ≤ e.store.capacity.toNat
  · rw [evictIfNeeded_of_le ho, hk] at hgone
    cases hgone
  · obtain ⟨order, hperm, hage, he⟩ := evictIfNeeded_eq h hb (Nat.lt_of_not_le ho)
    have hsplit := shedding_append_drop e.store.targetWeight e.store.weightedSize order
    rw [he] at hgone hkept
    generalize shedding e.store.targetWeight e.store.weightedSize order = victims at *
    generalize order.drop victims.length = rest at hsplit
    subst hsplit
    obtain ⟨hcoherent, hrest⟩ := residents_without h hperm
    obtain ⟨r, hr, rfl⟩ := Store.stamp?_eq_some.1 hk
    obtain ⟨r', hr', rfl⟩ := Store.stamp?_eq_some.1 hkept
    have hmem : (k, r) ∈ victims ++ rest :=
      hperm.mem_iff.2 ((Store.mem_residents h.proper).2 hr)
    have hmem' : (k', r') ∈ rest := hrest.mem_iff.2 ((Store.mem_residents hcoherent.proper).2 hr')
    have hvictim : (k, r) ∈ victims := by
      rcases List.mem_append.1 hmem with hm | hm
      · exact hm
      · have hleft := (Store.mem_residents hcoherent.proper).1 (hrest.mem_iff.1 hm)
        rw [Store.stamp?_eq_some.2 ⟨r, hleft, rfl⟩] at hgone
        cases hgone
    constructor
    · exact (List.pairwise_append.1 hage).2.2 _ hvictim _ hmem'
    · have hbefore := hperm.mem_iff.1 (List.mem_append_right victims hmem')
      exact Store.stamp?_eq_some.2 ⟨r', (Store.mem_residents h.proper).1 hbefore, rfl⟩

end Engine

namespace Traffic
variable {t u : Traffic} {log : List Tick}

theorem calm_of_pass (ht : t.Initial) (hb : t.shared.store.batchSize ≠ 0) (h : t.Nested u) {i : Nat}
    {c : Call} (hi : u.calls[i]? = some c) (hc : c.pass? = some .compare) :
    u.shared.store.Coherent ∧ u.shared.store.batchSize ≠ 0 ∧ u.shared.evicting = false := by
  obtain ⟨hw, hset, hregular⟩ := regular_of_nested ht hb h
  have hpass : c.waiting = false ∧ c.owes = 0 ∧
      (c.Regular u.shared → Pass.compare.Regular u.shared) := by
    cases c with
    | get k reader goal stage =>
      cases stage with
      | evict chunk p =>
        cases hc
        exact ⟨by cases goal <;> rfl, rfl, id⟩
      | _ => cases hc
    | evict p =>
      cases hc
      exact ⟨rfl, rfl, id⟩
    | _ => cases hc
  obtain ⟨hwait, howes, hcompare⟩ := hpass
  obtain ⟨hothers, hreg⟩ := hregular.turn i c hi hwait
  obtain ⟨s₀, hcoherent, hbatch, hfree, -, hrun⟩ := hcompare hreg
  -- no step of a pass leads to its start
  have hstart : s₀ = u.shared := by
    rcases hrun.cases_tail with he | ⟨⟨p, s⟩, -, hs⟩
    · exact (congrArg Prod.snd he).symm
    · exact absurd hs Pass.step_ne_compare
  subst hstart
  exact ⟨hcoherent, hbatch, hfree⟩

/-- No pass of a sequential run takes out a chunk and leaves one that was last used in an earlier
epoch: before fewer chunks had become resident. -/
theorem pass_keeps_recent (ht : t.Initial) (h : t.InTurn log u) {i : Nat} {c : Call}
    (hi : u.calls[i]? = some c) (hc : c.pass? = some .compare) {s' : Shared}
    (hpass : Uninterrupted Pass.step (.compare, u.shared) (.left, s')) {k k' : ChunkId}
    (hk : (u.shared.store.stamp? k).isSome) (hgone : s'.store.stamp? k = none)
    (hkept : (s'.store.stamp? k').isSome) : lastUse k log ≤ lastUse k' log := by
  have hreach : t.Reaches (fun _ ↦ True) u := h.records.reachable
  have hset := settings_of_reaches (weighed_of_initial ht) hreach
  by_cases hb : u.shared.store.batchSize = 0
  · rw [(Pass.store_of_empty_batches hb hpass).1] at hgone
    rw [hgone] at hk
    cases hk
  rw [Store.batchSize, hset] at hb
  obtain ⟨hcoherent, hbatch, hfree⟩ := calm_of_pass ht hb (nested_of_inTurn h) hi hc
  obtain ⟨s₁, hrun, heng, -, -⟩ := Pass.uninterrupted hcoherent hbatch hfree
  have heq := congrArg Prod.snd (Uninterrupted.unique hpass hrun rfl rfl)
  simp only at heq
  subst heq
  obtain ⟨n, hn⟩ := Option.isSome_iff_exists.1 hk
  obtain ⟨n', hn'⟩ := Option.isSome_iff_exists.1 hkept
  rw [Shared.store, heng] at hgone hn'
  obtain ⟨hle, hold⟩ := Engine.evictIfNeeded_keeps_recent hcoherent hbatch hn hgone hn'
  have hexact := exact_of_records ht h.records
  rw [← hexact.stamp k n hn, ← hexact.stamp k' n' hold]
  exact hle

end Traffic
end ReadCache
