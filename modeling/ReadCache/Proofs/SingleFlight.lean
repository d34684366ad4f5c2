import ReadCache.Proofs.Budget
import ReadCache.Proofs.History

namespace ReadCache

def Stage.runs? : Stage → Option Ticket
  | borrow t | read t _ | settle t _ _ | publish t _ _ | clear t _ | announce t _ => some t
  | _ => none

/-- The load that the stage is in the middle of, as long as it may still have its slot. -/
def Stage.undecided? : Stage → Option Ticket
  | borrow t | read t _ | settle t _ _ | clear t _ => some t
  | _ => none

namespace Call

def runs? : Call → Option Ticket
  | get _ _ _ stage => stage.runs?
  | _ => none

def runs (t : Ticket) (c : Call) : Bool := c.runs? = some t

def undecided (k : ChunkId) (t : Ticket) : Call → Bool
  | get k' _ _ stage => k' = k && stage.undecided? = some t
  | _ => false

def awaits? : Call → Option Ticket
  | get _ _ _ (.await t) => some t
  | _ => none

theorem runs_of_undecided {k : ChunkId} {t : Ticket} {c : Call} (h : c.undecided k t = true) :
    c.runs t = true := by
  cases c with
  | get k' reader goal stage =>
    simp only [undecided, Bool.and_eq_true, decide_eq_true_eq] at h
    obtain ⟨-, h⟩ := h
    cases stage with
    | borrow | read | settle | clear => simpa [runs, runs?, Stage.runs?, Stage.undecided?] using h
    | _ => cases h
  | _ => cases h

variable {s s' : Shared} {x x' : Call} {k : ChunkId} {t : Ticket}

theorem Goes.runs (h : Goes s x x' s') :
    (x.tells? = none ∧ x'.runs? = x.runs? ∧ s'.store.results = s.store.results) ∨
    (x.tells? = none ∧ x.runs? = none ∧ x'.runs? = some s.store.results.size ∧
      s'.store.results = s.store.results.push none) ∨
    ∃ t r, x.tells? = some (t, r) ∧ x.runs? = some t ∧ x'.runs? = none ∧
      s'.store.results = s.store.results.setIfInBounds t (some r) := by
  cases h with
  | stage h =>
    cases h with
    | hit hx _ h | join hx _ h =>
      rcases hx with rfl | rfl <;> exact .inl ⟨rfl, rfl, h.store.results⟩
    | miss _ h | borrow h | refuse h | arrive h _ | fail h | settle _ h | replace h | clear h =>
      exact .inl ⟨rfl, rfl, h.store.results⟩
    | receive _ | lose _ | leave => exact .inl ⟨rfl, rfl, rfl⟩
    | pass h => exact .inl ⟨rfl, rfl, h.frees.store.results⟩
    | begin _ h => exact .inr (.inl ⟨rfl, rfl, rfl, h.store.results⟩)
    | @publish t chunk settled s' h =>
      refine .inr (.inr ⟨t, _, rfl, rfl, ?_, h.store.results⟩)
      cases settled <;> rfl
    | announce h => exact .inr (.inr ⟨_, _, rfl, rfl, rfl, h.store.results⟩)
  | take h => exact .inl ⟨rfl, rfl, h.store.results⟩
  | retry | refuse => exact .inl ⟨rfl, rfl, rfl⟩
  | direct h =>
    cases h with
    | borrow h | refuse h | arrive h | fail h => exact .inl ⟨rfl, rfl, h.store.results⟩
  | invalidate h | sweep h | evict h => exact .inl ⟨rfl, rfl, h.frees.store.results⟩

/-- A load that finds its slot gone is over with it, and so is one that took it. -/
theorem Goes.undecided (h : Goes s x x' s') (hx : x.undecided k t = true)
    (hk : s'.store.occupant? k = some (.loading t)) : x'.undecided k t = true := by
  cases h with
  | stage h =>
    simp only [Call.undecided, Bool.and_eq_true, decide_eq_true_eq] at hx ⊢
    obtain ⟨rfl, hx⟩ := hx
    refine ⟨rfl, ?_⟩
    cases h with
    | hit h _ _ | join h _ _ => rcases h with rfl | rfl <;> cases hx
    | borrow _ | refuse _ | arrive _ _ | fail _ => exact hx
    | settle _ h =>
      rw [h.store.occupants, Function.update_self] at hk
      cases hk
    | lose hn =>
      cases hx
      exact absurd hk hn
    | clear h =>
      cases hx
      simp only [h.store.occupants, Store.Occupants.free, decide_true, Bool.true_and] at hk
      split at hk
      · cases hk
      · rename_i hn
        exact absurd hk (by simpa using hn)
    | _ => cases hx
  | _ => simp [Call.undecided, Stage.undecided?] at hx

theorem Goes.awaits (h : Goes s x x' s') (hx : x'.awaits? = some t) :
    ∃ k, s.store.occupant? k = some (.loading t) := by
  cases h with
  | stage h =>
    cases h with
    | join _ hk _ =>
      cases hx
      exact ⟨_, hk⟩
    | @publish t chunk settled s' _ => cases settled <;> cases hx
    | _ => cases hx
  | _ => cases hx

/-- The call may be about to free the slot of `k`: it invalidates, it evicts, or its load of `k`
has failed. -/
def mayFree (k : ChunkId) : Call → Bool
  | get k' _ _ (.clear ..) => k' = k
  | get _ _ _ (.evict ..) | invalidate .. | sweep .. | evict _ => true
  | _ => false

theorem Goes.mayFree (h : Goes s x x' s') (hk : (s.store.occupant? k).isSome = true)
    (hk' : (s'.store.occupant? k).isNone = true) : x.mayFree k = true := by
  have hstay (he : s'.store.occupant? = s.store.occupant?) : False := by
    rw [Option.isNone_iff_eq_none, he] at hk'
    rw [hk'] at hk
    cases hk
  have hfill {j : ChunkId} {o : Occupant}
      (he : s'.store.occupant? = Function.update s.store.occupant? j (some o)) : False := by
    rw [Option.isNone_iff_eq_none, he, Function.update_apply] at hk'
    split at hk'
    · cases hk'
    · rw [hk'] at hk
      cases hk
  cases h with
  | stage h =>
    cases h with
    | hit _ _ h | join _ _ h | miss _ h | borrow h | refuse h | arrive h _ | fail h | publish h
    | replace h | announce h => exact (hstay h.store.occupants).elim
    | begin _ h | settle _ h => exact (hfill h.store.occupants).elim
    | receive _ | lose _ => exact (hstay rfl).elim
    | leave | pass _ => rfl
    | clear h =>
      simp only [h.store.occupants, Store.Occupants.free] at hk'
      split at hk'
      · rename_i hkey
        simp only [Bool.and_eq_true, decide_eq_true_eq] at hkey
        exact decide_eq_true hkey.1.symm
      · rw [Option.isNone_iff_eq_none] at hk'
        rw [hk'] at hk
        cases hk
  | take h => exact (hstay h.store.occupants).elim
  | retry | refuse => exact (hstay rfl).elim
  | direct h =>
    cases h with
    | borrow h | refuse h | arrive h | fail h => exact (hstay h.store.occupants).elim
  | invalidate | sweep | evict => rfl

end Call

namespace Store

def pending (s : Store) (t : Ticket) : Bool := t < s.results.size && (s.result? t).isNone

variable {s s' : Store} {t : Ticket}

theorem pending_iff : s.pending t = true ↔ t < s.results.size ∧ s.result? t = none := by
  simp [pending]

theorem pending_of_results (h : s'.results = s.results) : s'.pending = s.pending := by
  funext t
  rw [pending, pending, h, result?_of_results h]

theorem pending_of_push (h : s'.results = s.results.push none) (t : Ticket) :
    s'.pending t = (t = s.results.size || s.pending t) := by
  rw [pending, pending, h, result?_of_push h, Array.size_push]
  by_cases he : t = s.results.size
  · subst he
    simp [result?]
  · have hlt : t < s.results.size + 1 ↔ t < s.results.size :=
      ⟨fun h ↦ Nat.lt_of_le_of_ne (Nat.lt_succ_iff.1 h) he, Nat.lt_succ_of_lt⟩
    simp [he, hlt]

theorem pending_of_set {r : Except Error ChunkRef} (ht : t < s.results.size)
    (h : s'.results = s.results.setIfInBounds t (some r)) (t' : Ticket) :
    s'.pending t' = (t' ≠ t && s.pending t') := by
  rw [pending, pending, h, result?_of_set h ht, Array.size_setIfInBounds]
  by_cases he : t' = t <;> simp [he]

end Store

namespace Traffic
variable {t u v : Traffic} {log : List Tick} {m : Move}

theorem mem_set_of_mem {calls : List Call} {i : Nat} {c x : Call} (hi : calls[i]? = some c)
    (hx : x ∈ calls) (c' : Call) : x = c ∨ x ∈ calls.set i c' := by
  obtain ⟨j, hj⟩ := List.mem_iff_getElem?.1 hx
  by_cases he : i = j
  · subst he
    exact .inl (Option.some.inj (hj.symm.trans hi))
  · exact .inr (List.mem_iff_getElem?.2 ⟨j, by rw [List.getElem?_set_ne he, hj]⟩)

structure Flights (u : Traffic) : Prop where
  running : ∀ p, u.calls.countP (Call.runs p) = (u.shared.store.pending p).toNat
  slot : ∀ k p, u.shared.store.occupant? k = some (.loading p) →
    ∃ c ∈ u.calls, c.undecided k p = true
  awaited : ∀ c ∈ u.calls, ∀ p, c.awaits? = some p → p < u.shared.store.results.size

theorem Flights.pending_of_runs (h : u.Flights) {c : Call} {p : Ticket} (hc : c ∈ u.calls)
    (hp : c.runs p = true) : u.shared.store.pending p = true := by
  have hpos : 0 < u.calls.countP (Call.runs p) := List.countP_pos_iff.2 ⟨c, hc, hp⟩
  rw [h.running p] at hpos
  cases hb : u.shared.store.pending p
  · rw [hb] at hpos
    cases hpos
  · rfl

theorem Flights.pending_of_slot (h : u.Flights) {k : ChunkId} {p : Ticket}
    (hk : u.shared.store.occupant? k = some (.loading p)) : u.shared.store.pending p = true := by
  obtain ⟨c, hc, hp⟩ := h.slot k p hk
  exact h.pending_of_runs hc (Call.runs_of_undecided hp)

theorem flights_of_initial (h : t.Initial) : t.Flights where
  running p := by simp [h.calls, Store.pending, h.results]
  slot k p hk := by
    rw [h.occupant?] at hk
    cases hk
  awaited c hc := by
    rw [h.calls] at hc
    cases hc

theorem start_idle (c : Start) : c.call.runs? = none ∧ c.call.awaits? = none := by
  rcases c.call_cases with ⟨k, reader, goal, x, he, rfl | ⟨f, rfl⟩⟩ | ⟨asked, k, reader, he⟩ |
    ⟨k, he⟩ | ⟨matches?, he⟩ | he <;> rw [he] <;> exact ⟨rfl, rfl⟩

theorem running_of_goes {i : Nat} {c c' : Call} {s : Shared} (h : t.Flights)
    (hi : t.calls[i]? = some c) (hs : c.Goes t.shared c' s) (p : Ticket) :
    (t.calls.set i c').countP (Call.runs p) = (s.store.pending p).toNat := by
  obtain ⟨others, hold, hnew⟩ := calls_split hi
  have hbefore := hold.countP_eq (Call.runs p)
  rw [h.running p, List.countP_cons] at hbefore
  rw [(hnew c').countP_eq, List.countP_cons]
  -- The step goes on with a load, begins the next one, or tells what one came to.
  rcases hs.runs with ⟨-, hruns, hres⟩ | ⟨-, hnone, hruns, hres⟩ | ⟨q, r, -, hruns, hnone, hres⟩
  · have hsame : c'.runs p = c.runs p := by rw [Call.runs, Call.runs, hruns]
    rw [Store.pending_of_results hres, hbefore, hsame]
  · have hc : c.runs p = false := by rw [Call.runs, hnone]; rfl
    have hc' : c'.runs p = decide (p = t.shared.store.results.size) := by
      simp [Call.runs, hruns, eq_comm]
    have hno : t.shared.store.pending t.shared.store.results.size = false := by simp [Store.pending]
    rw [Store.pending_of_push hres, hc']
    rw [hc] at hbefore
    by_cases he : p = t.shared.store.results.size
    · subst he
      simpa [hno] using hbefore.symm
    · simpa [he] using hbefore.symm
  · have hq := h.pending_of_runs (List.mem_of_getElem? hi) (decide_eq_true hruns)
    have hc : c.runs p = decide (p = q) := by simp [Call.runs, hruns, eq_comm]
    have hc' : c'.runs p = false := by rw [Call.runs, hnone]; rfl
    rw [Store.pending_of_set (Store.pending_iff.1 hq).1 hres, hc']
    rw [hc] at hbefore
    by_cases he : p = q
    · subst he
      simpa [hq] using hbefore.symm
    · simpa [he] using hbefore.symm

theorem goes_flights (hp : t.shared.store.slots.Proper) (h : t.Flights) (hs : t.Goes m u) :
    u.Flights := by
  have hgrows := (hs.grows hp).results
  cases hs with
  | start c =>
    obtain ⟨hruns, hawaits⟩ := start_idle c
    refine ⟨fun p ↦ ?_, fun k p hk ↦ ?_, fun x hx p hx' ↦ ?_⟩
    · rw [List.countP_append, h.running p]
      simp [Call.runs, hruns]
    · obtain ⟨x, hx, hp⟩ := h.slot k p hk
      exact ⟨x, List.mem_append_left _ hx, hp⟩
    · rcases List.mem_append.1 hx with hx | hx
      · exact h.awaited x hx p hx'
      · rw [List.mem_singleton.1 hx, hawaits] at hx'
        cases hx'
  | @advance i conduct c c' s hi hgo =>
    have hmem : c' ∈ t.calls.set i c' := List.mem_set (List.getElem?_eq_some_iff.1 hi).1 c'
    refine ⟨running_of_goes h hi hgo, fun k p hk ↦ ?_, fun x hx p hx' ↦ ?_⟩
    -- A slot waits for the load that it waited for before, or the call has just taken it.
    · rcases (hgo.effect hp).loading hk with hold | ⟨⟨reader, goal, rfl, rfl⟩, rfl⟩
      · obtain ⟨x, hx, hp⟩ := h.slot k p hold
        rcases mem_set_of_mem hi hx c' with rfl | hx
        · exact ⟨c', hmem, hgo.undecided hp hk⟩
        · exact ⟨x, hx, hp⟩
      · exact ⟨_, hmem, by simp [Call.undecided, Stage.undecided?]⟩
    · rcases List.mem_or_eq_of_mem_set hx with hx | rfl
      · exact (h.awaited x hx p hx').trans_le hgrows
      · obtain ⟨k, hk⟩ := hgo.awaits hx'
        exact (Store.pending_iff.1 (h.pending_of_slot hk)).1.trans_le hgrows
  | other store =>
    refine ⟨fun p ↦ ?_, fun k p hk ↦ h.slot k p (store.occupants ▸ hk), fun x hx p hx' ↦ ?_⟩
    · rw [Store.pending_of_results store.results]
      exact h.running p
    · exact (h.awaited x hx p hx').trans_le hgrows

theorem Records.flights (ht : t.Initial) (h : Records t log v) : v.Flights :=
  h.invariant (P := fun _ v ↦ v.Flights) ht.proper (flights_of_initial ht)
    fun _ _ _ _ hp ih hs ↦ goes_flights hp ih (step_goes hp hs)

/-- Each load was told of as often as its result is known, which is once at most, and whoever waited
for it was told the same. -/
structure Tells (log : List Tick) (u : Traffic) : Prop where
  told : ∀ p, log.countP (Tick.tells p) = (u.shared.store.result? p).isSome.toNat
  result : ∀ p r, u.shared.store.result? p = some r → ∃ x ∈ log, x.tells? = some (p, r)
  received : ∀ x ∈ log, ∀ k p b, x.stages? = some (k, .await p, b) →
    ∃ y ∈ log, ∃ r, y.tells? = some (p, r) ∧ b = .answered (r.mapError Failure.error)

theorem tells_of_initial (h : t.Initial) : Tells [] t where
  told p := by simp [Store.result?, h.results]
  result p r hr := by simp [Store.result?, h.results] at hr
  received x hx := by cases hx

theorem told_of_goes (h : t.Flights) (hs : t.Goes m u) (p : Ticket) :
    (t.shared.store.result? p).isSome.toNat + ((⟨t, m, u⟩ : Tick).tells p).toNat =
      (u.shared.store.result? p).isSome.toNat := by
  cases hs with
  | start c => simp [Tick.tells, Tick.tells?, Tick.came?, Tick.mover?]
  | @advance i conduct c c' s hi hgo =>
    rw [Tick.tells, Tick.tells?, came?_advance hi, Option.bind_some]
    rcases hgo.runs with ⟨hnone, -, hres⟩ | ⟨hnone, -, -, hres⟩ | ⟨q, r, htold, hruns, -, hres⟩
    · rw [hnone, Store.result?_of_results hres]
      rfl
    · rw [hnone, Store.result?_of_push hres]
      rfl
    · have hq := Store.pending_iff.1
        (h.pending_of_runs (List.mem_of_getElem? hi) (decide_eq_true hruns))
      rw [htold, Store.result?_of_set hres hq.1]
      by_cases he : p = q
      · subst he
        simp [hq.2]
      · simp [he, Ne.symm he]
  | other store _ _ _ _ hm =>
    simp [Tick.tells, Tick.tells?, came?_other hm, Store.result?_of_results store.results]

theorem goes_tells (hp : t.shared.store.slots.Proper) (hf : t.Flights) (h : Tells log t)
    (hs : t.Goes m u) : Tells (log ++ [⟨t, m, u⟩]) u where
  told p := by
    rw [List.countP_append, h.told p, List.countP_singleton, ← told_of_goes hf hs p]
    cases (⟨t, m, u⟩ : Tick).tells p <;> rfl
  result p r hr := by
    have hmem : (⟨t, m, u⟩ : Tick) ∈ log ++ [⟨t, m, u⟩] :=
      List.mem_append_right _ List.mem_cons_self
    have hkept (hr : t.shared.store.result? p = some r) :
        ∃ x ∈ log ++ [⟨t, m, u⟩], x.tells? = some (p, r) := by
      obtain ⟨x, hx, htold⟩ := h.result p r hr
      exact ⟨x, List.mem_append_left _ hx, htold⟩
    rcases hs.effect hp with hstay | ⟨c, c', hcame, -, heffect⟩
    · exact hkept (Store.result?_of_results hstay.results ▸ hr)
    · rcases heffect.result hr with hr | htold
      · exact hkept hr
      · exact ⟨_, hmem, by rw [Tick.tells?, hcame]; exact htold⟩
  received x hx k p b hb := by
    rcases List.mem_append.1 hx with hx | hx
    · obtain ⟨y, hy, r, htold, he⟩ := h.received x hx k p b hb
      exact ⟨y, List.mem_append_left _ hy, r, htold, he⟩
    · obtain rfl := List.mem_singleton.1 hx
      rcases hs.stage hb with hgo | ⟨c, he⟩
      · obtain ⟨r, hr, he⟩ := hgo.of_await
        obtain ⟨y, hy, htold⟩ := h.result _ _ hr
        exact ⟨y, List.mem_append_left _ hy, r, htold, he⟩
      · cases he

theorem Records.tells (ht : t.Initial) (h : Records t log v) : Tells log v :=
  (h.invariant (P := fun log v ↦ v.Flights ∧ Tells log v) ht.proper
    ⟨flights_of_initial ht, tells_of_initial ht⟩
    fun _ _ _ _ hp ih hs ↦
      ⟨goes_flights hp ih.1 (step_goes hp hs), goes_tells hp ih.1 ih.2 (step_goes hp hs)⟩).2

end Traffic

def Tick.refuses (k : ChunkId) (x : Tick) : Bool :=
  match x.stages? with
  | some (k', .borrow _, .clear ..) => k' = k
  | _ => false

namespace Traffic
variable {t u v : Traffic} {log : List Tick} {m : Move}

theorem countP_snoc {α : Type} (p : α → Bool) (l : List α) (a : α) :
    (l ++ [a]).countP p = l.countP p + (p a).toNat := by
  rw [List.countP_append, List.countP_singleton]
  cases p a <;> rfl

theorem Records.freed (ht : t.Initial) (h : Records t log v) :
    ∀ x ∈ log, ∀ k, x.frees k = true → ∃ c, x.came? = some c ∧ c.mayFree k = true := by
  refine h.invariant (P := fun log _ ↦ ∀ x ∈ log, ∀ k, x.frees k = true →
    ∃ c, x.came? = some c ∧ c.mayFree k = true) ht.proper (fun _ hx ↦ by cases hx) ?_
  intro log u m v hp ih hs x hx k hfrees
  rcases List.mem_append.1 hx with hx | hx
  · exact ih x hx k hfrees
  · obtain rfl := List.mem_singleton.1 hx
    simp only [Tick.frees, Bool.and_eq_true] at hfrees
    have hsame (he : v.shared.store.occupant? k = u.shared.store.occupant? k) : False := by
      rw [he, Option.isNone_iff_eq_none] at hfrees
      rw [hfrees.2] at hfrees
      cases hfrees.1
    cases step_goes hp hs with
    | start c => exact (hsame rfl).elim
    | advance hi hgo => exact ⟨_, hi, hgo.mayFree hfrees.1 hfrees.2⟩
    | other store => exact (hsame (congrFun store.occupants k)).elim

end Traffic
end ReadCache
