import ReadCache.Proofs.Eviction
import ReadCache.Proofs.Weights

namespace ReadCache

def places (l : List (ChunkId × Resident)) : List (ChunkId × ChunkRef) :=
  l.map fun b ↦ (b.1, b.2.chunk)

theorem mem_places {l : List (ChunkId × Resident)} {k : ChunkId} {r : Resident} (h : (k, r) ∈ l) :
    (k, r.chunk) ∈ places l := List.mem_map_of_mem h

namespace Store
variable {s s' : Store}

def Has (s : Store) (l : List (ChunkId × ChunkRef)) : Prop :=
  ∀ p ∈ l, ∃ e ∈ s.entries, (e.key, e.chunk) = p

theorem Has.mono {l : List (ChunkId × ChunkRef)} (h : s.Has l) (he : s.entries ⊆ s'.entries) :
    s'.Has l := by
  intro p hp
  obtain ⟨e, hm, hkey⟩ := h p hp
  exact ⟨e, he hm, hkey⟩

theorem Has.subset {l l' : List (ChunkId × ChunkRef)} (h : s.Has l) (hl : l' ⊆ l) : s.Has l' :=
  fun p hp ↦ h p (hl hp)

theorem has_places {l : List (ChunkId × Resident)} (h : l ⊆ s.residents) : s.Has (places l) := by
  intro p hp
  obtain ⟨⟨k, r⟩, hb, rfl⟩ := List.mem_map.1 hp
  exact ⟨r.entry k, mem_entries.2 ⟨k, r, h hb, rfl⟩, rfl⟩

theorem residentsIn_subset (s : Store) (i : Nat) : s.residentsIn i ⊆ s.residents := by
  intro b hb
  exact mem_residentsOf.2 (ShardedMap.mem_toList_of_mem_shard (mem_residentsOf.1 hb))

end Store

namespace Pass
variable {s s' : Shared} {p p' : Pass}

def running : Pass → Bool
  | compare | enter | left => false
  | _ => true

/-- As long as a batch was of no use, all that the pass goes by is resident. -/
def Sound (s : Store) : Pass → Prop
  | collect _ seen => s.Has (places seen)
  | pick b => 0 < b.evicted ∨ b.rest ≠ [] ∧ s.Has (places b.rest)
  | take k chunk b => 0 < b.evicted ∨ s.Has [(k, chunk)]
  | _ => True

theorem sound_of_not_running (h : p.running = false) (s : Store) : p.Sound s := by
  cases p with
  | compare | enter | left => trivial
  | _ => cases h

theorem Sound.mono {a b : Store} (h : p.Sound a) (he : a.entries ⊆ b.entries) : p.Sound b := by
  cases p with
  | collect shard seen => exact Store.Has.mono h he
  | pick batch => exact h.imp_right fun ⟨hne, hh⟩ ↦ ⟨hne, hh.mono he⟩
  | take k chunk batch => exact h.imp_right fun hh ↦ hh.mono he
  | _ => trivial

theorem running_step (h : p.running = true → s.evicting = true) (hs : p.step s = some (p', s')) :
    s'.evicting.toNat + p.running.toNat = s.evicting.toNat + p'.running.toNat := by
  cases steps hs with
  | enter hfree =>
    rw [hfree]
    rfl
  | light | empty | leave | giveUp =>
    rw [h rfl]
    rfl
  | _ => rfl

theorem store_of_not_running (h : p.running = false) (hs : p.step s = some (p', s')) :
    s'.store = s.store := by
  cases steps hs with
  | spare | queue | enter => rfl
  | _ => cases h

theorem step_sound (hp : s.store.slots.Proper) (hb : s.store.batchSize ≠ 0) (h : p.Sound s.store)
    (hs : p.step s = some (p', s')) : p'.Sound s'.store ∧ s'.gaveUp = s.gaveUp := by
  cases steps hs with
  | heavy => exact ⟨fun p hp ↦ absurd hp List.not_mem_nil, rfl⟩
  | @collect shard seen =>
    refine ⟨?_, rfl⟩
    intro p hp
    rw [places, List.map_append, List.mem_append] at hp
    rcases hp with hp | hp
    · exact h p hp
    · exact Store.has_places (Store.residentsIn_subset _ shard) p hp
  | sort _ hseen =>
    refine ⟨.inr ⟨Engine.leastRecent_ne_nil hb hseen, ?_⟩, rfl⟩
    apply Store.Has.subset h
    exact List.map_subset _ (Engine.leastRecent_subset _ _)
  | next hrest =>
    refine ⟨h.imp_right ?_, rfl⟩
    rintro ⟨-, hhas⟩
    apply hhas.subset
    simp [hrest, places]
  | giveUp hnone hrest =>
    rcases h with hused | ⟨hne, -⟩
    · exact absurd hnone (Nat.ne_of_gt hused)
    · exact absurd hrest hne
  | gone hn =>
    refine ⟨.inl ?_, rfl⟩
    rcases h with hused | hhas
    · exact hused
    · obtain ⟨e, hm, heq⟩ := hhas _ List.mem_cons_self
      obtain ⟨k', r, hr, rfl⟩ := Store.mem_entries.1 hm
      cases heq
      exact absurd rfl (hn r ((Store.mem_residents hp).1 hr))
  | retire => exact ⟨.inl (Nat.succ_pos _), rfl⟩
  | _ => exact ⟨trivial, rfl⟩

end Pass

structure Shared.Spares (s s' : Shared) : Prop where
  evicting : s'.evicting = s.evicting
  gaveUp : s'.gaveUp = s.gaveUp

/-- Moreover, what is resident stays so. -/
structure Shared.Adds (s s' : Shared) : Prop extends s.Spares s' where
  entries : s.store.entries ⊆ s'.store.entries

def Stage.pass? : Stage → Option Pass
  | evict _ p => some p
  | _ => none

def Call.pass? : Call → Option Pass
  | get _ _ _ stage => stage.pass?
  | evict p => some p
  | _ => none

def Call.removes : Call → Bool
  | invalidate .. | sweep .. => true
  | _ => false

section
variable {s s' : Shared}

theorem Shared.Adds.keep (he : s'.store.entries = s.store.entries)
    (hev : s'.evicting = s.evicting) (hg : s'.gaveUp = s.gaveUp) : s.Adds s' where
  evicting := hev
  gaveUp := hg
  entries e hm := by rwa [he]

theorem Conduct.adds_acquire (c : Conduct) (position : UInt64) (roundUp : Bool) (s : Shared) :
    s.Adds (c.acquire position roundUp s).2 := by
  obtain ⟨m, he⟩ := c.acquire_eq position roundUp s
  rw [he]
  exact .keep rfl rfl rfl

/-- A load that made its chunk resident goes on to a pass, and no other step leads to one. -/
theorem Stage.step_adds {k : ChunkId} {c : Conduct} {x x' : Stage} (hp : s.store.slots.Proper)
    (hx : x.pass? = none) (hs : x.step k c s = some (x', s')) :
    s.Adds s' ∧ (x'.pass? = none ∨
      (∃ t chunk, x = publish t chunk true) ∧ x'.pass? = some .compare) := by
  cases steps hs with
  | hit hr | hitLate hr => exact ⟨.keep (Store.entries_touch hp hr) rfl rfl, .inl rfl⟩
  | begin => exact ⟨.keep (Store.entries_claim hp k) rfl rfl, .inl rfl⟩
  | borrow | refuse => exact ⟨c.adds_acquire _ _ s, .inl rfl⟩
  | settle ho =>
    refine ⟨⟨⟨rfl, rfl⟩, ?_⟩, .inl rfl⟩
    intro e hm
    exact (Store.entries_settle hp ho).symm.subset (List.mem_cons_of_mem _ hm)
  | publish => exact ⟨.keep rfl rfl rfl, .inr ⟨⟨_, _, rfl⟩, rfl⟩⟩
  | pass | leave => cases hx
  | @clear t f => exact ⟨.keep (f.entries_clearLoad hp t) rfl rfl, .inl rfl⟩
  | _ => exact ⟨.keep rfl rfl rfl, .inl rfl⟩

theorem Direct.step_adds {asked k : ChunkId} {c : Conduct} {x x' : Direct}
    (hs : x.step asked k c s = some (x', s')) : s.Adds s' := by
  cases steps hs with
  | borrow | refuse => exact c.adds_acquire _ _ s
  | arrive | fail => exact .keep rfl rfl rfl

theorem Removal.step_spares {k : ChunkId} {x x' : Removal} (hs : x.step k s = some (x', s')) :
    s.Spares s' := by
  cases steps hs <;> exact ⟨rfl, rfl⟩

theorem Sweep.step_spares {matches? : ChunkId → Bool} {x x' : Sweep}
    (hs : x.step matches? s = some (x', s')) : s.Spares s' := by
  cases steps hs <;> exact ⟨rfl, rfl⟩

theorem Call.step_pass {c : Conduct} {x x' : Call} {p : Pass} (hx : x.pass? = some p)
    (hs : x.step c s = some (x', s')) :
    (p = .left ∧ x'.pass? = none ∧ s' = s) ∨ ∃ q, p.step s = some (q, s') ∧ x'.pass? = some q := by
  cases steps hs with
  | stage h =>
    cases Stage.steps h with
    | leave =>
      cases hx
      exact .inl ⟨rfl, rfl, rfl⟩
    | pass hq =>
      cases hx
      exact .inr ⟨_, hq, rfl⟩
    | _ => cases hx
  | evict h =>
    cases hx
    exact .inr ⟨_, h, rfl⟩
  | _ => cases hx

theorem Call.step_other {c : Conduct} {x x' : Call} (hp : s.store.slots.Proper)
    (hx : x.pass? = none) (hs : x.step c s = some (x', s')) :
    s.Spares s' ∧ (x.removes = false → s.store.entries ⊆ s'.store.entries) ∧
      (x'.pass? = none ∨ x'.pass? = some .compare) := by
  cases steps hs with
  | stage h =>
    obtain ⟨hadds, hnext⟩ := Stage.step_adds hp hx h
    exact ⟨hadds.toSpares, fun _ ↦ hadds.entries, hnext.imp_right And.right⟩
  | direct h =>
    have hadds := Direct.step_adds h
    exact ⟨hadds.toSpares, fun _ ↦ hadds.entries, .inl rfl⟩
  | invalidate h => exact ⟨Removal.step_spares h, fun h ↦ (by cases h), .inl rfl⟩
  | sweep h => exact ⟨Sweep.step_spares h, fun h ↦ (by cases h), .inl rfl⟩
  | evict => cases hx
  | take | retry | exhaust | overflow =>
    exact ⟨⟨rfl, rfl⟩, fun _ ↦ List.Subset.refl _, .inl rfl⟩

theorem Call.removes_step {c : Conduct} {x x' : Call} (hs : x.step c s = some (x', s')) :
    x'.removes = x.removes := by
  cases steps hs <;> rfl

theorem Call.step_eq_none_of_removes {c : Conduct} {x : Call} (hr : x.removes = true)
    (he : x.ended = true) : x.step c s = none := by
  cases x with
  | invalidate k stage =>
    cases stage with
    | ended => rfl
    | _ => cases he
  | sweep matches? stage =>
    cases stage with
    | ended => rfl
    | _ => cases he
  | _ => cases hr

theorem Start.pass?_call (c : Start) : c.call.pass? = none ∨ c.call.pass? = some .compare := by
  cases c with
  | rebuffer a reader position =>
    simp only [Start.call, Call.rebuffer]
    split
    · simp only [Call.pass?]
      split <;> exact .inl rfl
    · exact .inl rfl
  | evict => exact .inr rfl
  | _ => exact .inl rfl

end

namespace Traffic
variable {t u : Traffic}

def passes (t : Traffic) : List Pass := t.calls.filterMap Call.pass?

/-- No invalidation is under way while a pass has the right to evict. -/
def Apart (t : Traffic) : Prop :=
  t.shared.evicting = true → ∀ c ∈ t.calls, c.removes = true → c.ended = true

theorem reaches_apart_of_run {moves : List Move}
    (hm : ∀ c, .start c ∈ moves → c.call.removes = false)
    (hc : ∀ c ∈ t.calls, c.removes = false) (h : t.run moves = some u) : t.Reaches Apart u := by
  induction moves generalizing t with
  | nil =>
    cases h
    exact .refl
  | cons m moves ih =>
    obtain ⟨v, hv, hrest⟩ := Option.bind_eq_some_iff.1 h
    split at hrest
    · have hcalls : ∀ c ∈ v.calls, c.removes = false := by
        intro c hcv
        cases steps hv with
        | start x =>
          rcases List.mem_append.1 hcv with hcv | hcv
          · exact hc c hcv
          · rw [List.mem_singleton.1 hcv]
            exact hm x List.mem_cons_self
        | advance hi hstep =>
          rcases List.mem_or_eq_of_mem_set hcv with hcv | rfl
          · exact hc c hcv
          · rw [Call.removes_step hstep]
            exact hc _ (List.mem_of_getElem? hi)
        | _ => exact hc c hcv
      refine .head hv ?_ (ih (fun c hcm ↦ hm c (List.mem_cons_of_mem m hcm)) hcalls hrest)
      intro _ c hcv hr
      rw [hcalls c hcv] at hr
      cases hr
    · cases hrest

/-- One pass at most has the right to evict, and none has given up. -/
structure Orderly (t : Traffic) : Prop where
  running : t.passes.countP Pass.running = t.shared.evicting.toNat
  sound : ∀ p ∈ t.passes, p.Sound t.shared.store
  gaveUp : t.shared.gaveUp = 0

theorem orderly_of_initial (h : t.Initial) : t.Orderly := by
  have hnil : t.passes = [] := by rw [passes, h.calls, List.filterMap_nil]
  refine ⟨?_, ?_, h.gaveUp⟩
  · rw [hnil, h.evicting]
    rfl
  · intro p hp
    rw [hnil] at hp
    exact absurd hp List.not_mem_nil

theorem countP_running_cons (p : Pass) (l : List Pass) :
    (p :: l).countP Pass.running = l.countP Pass.running + p.running.toNat := by
  rw [List.countP_cons]
  cases p.running <;> rfl

theorem orderly_iff_of_perm {l : List Pass} (hl : t.passes.Perm l) :
    t.Orderly ↔ l.countP Pass.running = t.shared.evicting.toNat ∧
      (∀ p ∈ l, p.Sound t.shared.store) ∧ t.shared.gaveUp = 0 := by
  constructor
  · intro h
    have hrunning := h.running
    rw [hl.countP_eq] at hrunning
    exact ⟨hrunning, fun p hp ↦ h.sound p (hl.symm.subset hp), h.gaveUp⟩
  · rintro ⟨hrunning, hsound, hg⟩
    exact ⟨(hl.countP_eq Pass.running).trans hrunning, fun p hp ↦ hsound p (hl.subset hp), hg⟩

theorem sound_of_idle {l : List Pass} (h : l.countP Pass.running = 0) (s : Store) :
    ∀ p ∈ l, p.Sound s := by
  intro p hp
  apply Pass.sound_of_not_running
  simpa using List.countP_eq_zero.1 h p hp

theorem passes_split {i : Nat} {c : Call} (hi : t.calls[i]? = some c) :
    ∃ others : List Pass, t.passes.Perm (c.pass?.toList ++ others) ∧
      ∀ s c', (Traffic.mk s (t.calls.set i c')).passes.Perm (c'.pass?.toList ++ others) := by
  obtain ⟨others, hold, hnew⟩ := calls_split hi
  have hcons (x : Call) : (x :: others).filterMap Call.pass? =
      x.pass?.toList ++ others.filterMap Call.pass? := by
    cases hx : x.pass? with
    | none => exact List.filterMap_cons_none hx
    | some p => exact List.filterMap_cons_some hx
  refine ⟨others.filterMap Call.pass?, ?_, fun s c' ↦ ?_⟩
  · rw [← hcons]
    exact hold.filterMap _
  · rw [← hcons]
    exact (hnew c').filterMap _

section
variable {i : Nat} {c c' : Call} {conduct : Conduct} {s : Shared}

theorem other_orderly (hp : t.shared.store.slots.Proper) (ha : t.Apart) (h : t.Orderly)
    (hi : t.calls[i]? = some c) (hx : c.pass? = none)
    (hs : c.step conduct t.shared = some (c', s)) : Orderly ⟨s, t.calls.set i c'⟩ := by
  obtain ⟨others, hold, hnew⟩ := passes_split hi
  rw [orderly_iff_of_perm hold, hx] at h
  rw [orderly_iff_of_perm (hnew s c')]
  obtain ⟨hcount, hsound, hg⟩ := h
  obtain ⟨hspares, hentries, hnext⟩ := Call.step_other hp hx hs
  -- An invalidation takes chunks out, but then no pass has the right to evict.
  have hrest : ∀ p ∈ others, p.Sound s.store := by
    cases hr : c.removes with
    | false => exact fun p hp ↦ (hsound p hp).mono (hentries hr)
    | true =>
      cases hev : t.shared.evicting with
      | false =>
        rw [hev] at hcount
        exact sound_of_idle hcount s.store
      | true =>
        have hended := ha hev c (List.mem_of_getElem? hi) hr
        rw [Call.step_eq_none_of_removes hr hended] at hs
        cases hs
  rw [← hspares.evicting] at hcount
  refine ⟨?_, fun p hp ↦ ?_, hspares.gaveUp.trans hg⟩
  · rcases hnext with hnext | hnext <;> rw [hnext]
    · exact hcount
    · exact (countP_running_cons .compare others).trans hcount
  · rcases hnext with hnext | hnext <;> rw [hnext] at hp
    · exact hrest p hp
    · rcases List.mem_cons.1 hp with rfl | hp
      · trivial
      · exact hrest p hp

theorem pass_orderly {p : Pass} (hp : t.shared.store.slots.Proper)
    (hb : t.shared.store.batchSize ≠ 0) (h : t.Orderly) (hi : t.calls[i]? = some c)
    (hx : c.pass? = some p) (hs : c.step conduct t.shared = some (c', s)) :
    Orderly ⟨s, t.calls.set i c'⟩ := by
  obtain ⟨others, hold, hnew⟩ := passes_split hi
  rw [orderly_iff_of_perm hold, hx] at h
  rw [orderly_iff_of_perm (hnew s c')]
  obtain ⟨hcount, hsound, hg⟩ := h
  rw [Option.toList_some, List.singleton_append, countP_running_cons] at hcount
  have hown : p.Sound t.shared.store := hsound p List.mem_cons_self
  have hothers (q : Pass) (hq : q ∈ others) : q.Sound t.shared.store :=
    hsound q (List.mem_cons_of_mem _ hq)
  rcases Call.step_pass hx hs with ⟨rfl, hnext, rfl⟩ | ⟨q, hq, hnext⟩ <;> rw [hnext]
  · exact ⟨hcount, hothers, hg⟩
  have hright (hrun : p.running = true) : t.shared.evicting = true := by
    rw [hrun] at hcount
    cases hev : t.shared.evicting with
    | false =>
      rw [hev] at hcount
      cases hcount
    | true => rfl
  have hmoved := Pass.running_step hright hq
  have hcount' : others.countP Pass.running + q.running.toNat = s.evicting.toNat := by omega
  obtain ⟨hown', hg'⟩ := Pass.step_sound hp hb hown hq
  rw [Option.toList_some, List.singleton_append, countP_running_cons]
  refine ⟨hcount', fun q' hq' ↦ ?_, hg'.trans hg⟩
  rcases List.mem_cons.1 hq' with rfl | hq'
  · exact hown'
  -- Without the right the table is left alone, and beside one who has it the others go by nothing.
  cases hrun : p.running with
  | false =>
    rw [Pass.store_of_not_running hrun hq]
    exact hothers q' hq'
  | true =>
    rw [hrun, hright hrun] at hcount
    exact sound_of_idle (Nat.succ.inj hcount) s.store q' hq'

end

theorem advance_orderly {i : Nat} {conduct : Conduct} (hw : t.Weighed)
    (hb : t.shared.store.batchSize ≠ 0) (ha : t.Apart) (h : t.Orderly)
    (hs : t.step (.advance i conduct) = some u) : u.Orderly := by
  obtain ⟨c, c', s, hi, hstep, rfl⟩ := advance_cases hs
  cases hx : c.pass? with
  | none => exact other_orderly hw.proper ha h hi hx hstep
  | some p => exact pass_orderly hw.proper hb h hi hx hstep

theorem step_orderly {m : Move} (hw : t.Weighed) (hb : t.shared.store.batchSize ≠ 0)
    (ha : t.Apart) (h : t.Orderly) (hs : t.step m = some u) : u.Orderly := by
  rcases step_cases hs with ⟨i, conduct, rfl⟩ | ⟨hcalls, hslots, -, -, hg, hev⟩
  · exact advance_orderly hw hb ha h hs
  · have hentries : t.shared.store.entries ⊆ u.shared.store.entries := by
      simp only [Store.entries, Store.residents, hslots]
      exact List.Subset.refl _
    have hsound (p : Pass) (hp : p ∈ t.passes) : p.Sound u.shared.store :=
      (h.sound p hp).mono hentries
    rcases hcalls with he | ⟨c, he⟩
    · have hpasses : u.passes = t.passes := by rw [passes, passes, he]
      refine ⟨?_, ?_, hg.trans h.gaveUp⟩
      · rw [hpasses, hev]
        exact h.running
      · rw [hpasses]
        exact hsound
    · have hpasses : u.passes = t.passes ++ c.call.pass?.toList := by
        rw [passes, passes, he, List.filterMap_append]
        cases hc : c.call.pass? <;> simp [hc]
      refine ⟨?_, ?_, hg.trans h.gaveUp⟩
      · rw [hpasses, hev, List.countP_append, h.running]
        rcases c.pass?_call with hc | hc <;> rw [hc] <;> rfl
      · intro p hp
        rw [hpasses, List.mem_append] at hp
        rcases hp with hp | hp
        · exact hsound p hp
        · rcases c.pass?_call with hc | hc
          · rw [hc] at hp
            cases hp
          · rw [hc, Option.toList_some, List.mem_singleton] at hp
            rw [hp]
            trivial

theorem gaveUp_of_apart (ht : t.Initial) (hb : t.shared.store.batchSize ≠ 0)
    (h : t.Reaches Apart u) : u.shared.gaveUp = 0 := by
  have hstart : t.Apart := by
    intro hev
    rw [ht.evicting] at hev
    cases hev
  suffices hrun : u.Apart ∧ u.Orderly from hrun.2.gaveUp
  induction h with
  | refl => exact ⟨hstart, orderly_of_initial ht⟩
  | @step v w m hr hs ha ih =>
    have hset := settings_of_reaches (weighed_of_initial ht) hr
    have hb' : v.shared.store.batchSize ≠ 0 := by
      simpa only [Store.batchSize, hset] using hb
    have hw := weighed_of_reaches (weighed_of_initial ht) hr
    exact ⟨ha, step_orderly hw hb' ih.1 ih.2 hs⟩

end Traffic
end ReadCache
