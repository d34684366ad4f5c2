import ReadCache.Proofs.Exclusion

namespace ReadCache

def Store.Within (s : Store) (l : List (ChunkId × ChunkRef)) : Prop :=
  ∀ e ∈ s.entries, (e.key, e.chunk) ∈ l

/-- What a pass knows while it can still be relied on. -/
def Pass.OnDuty (s : Store) : Pass → Prop
  | compare | enter | weigh | discount .. | retire .. => True
  | collect shard seen =>
    ∀ e ∈ s.entries, s.slots.home e.key < shard → (e.key, e.chunk) ∈ places seen
  | pick b => 0 < b.evicted ∨ b.cut = true ∨ s.Within (places b.rest)
  | take k chunk b => 0 < b.evicted ∨ b.cut = true ∨ s.Within ((k, chunk) :: places b.rest)
  | left => False

def Stage.OnDuty (s : Store) : Stage → Prop
  | publish _ _ true => True
  | evict _ p => p.OnDuty s
  | _ => False

def Call.OnDuty (s : Store) : Call → Prop
  | get _ _ _ stage => stage.OnDuty s
  | evict p => p.OnDuty s
  | _ => False

namespace Store
variable {s s' : Store}

theorem Within.mono {l : List (ChunkId × ChunkRef)} (h : s.Within l)
    (he : s'.entries ⊆ s.entries) : s'.Within l := fun e hm ↦ h e (he hm)

theorem residentWeight_of_within_nil (h : s.Within []) : s.residentWeight = 0 := by
  have hnil : s.entries = [] :=
    List.eq_nil_iff_forall_not_mem.2 fun e hm ↦ List.not_mem_nil (h e hm)
  simp [residentWeight, hnil]

theorem mem_residentsIn_home (h : s.slots.Proper) {e : Entry} (he : e ∈ s.entries) :
    ∃ r, (e.key, r) ∈ s.residentsIn (s.slots.home e.key) ∧ r.chunk = e.chunk := by
  obtain ⟨k, r, hr, rfl⟩ := mem_entries.1 he
  exact ⟨r, mem_residentsOf.2 (h.mem_home (mem_residentsOf.1 hr)), rfl⟩

end Store

theorem Pass.places_batchOf {s : Store} {seen : List (ChunkId × Resident)}
    (h : (batchOf s seen).cut = false) : places seen ⊆ places (batchOf s seen).rest := by
  simp only [batchOf, decide_eq_false_iff_not, Nat.not_lt] at h
  have hp := Engine.byAge_perm s seen
  have hall : (batchOf s seen).rest = s.byAge seen := List.take_of_length_le (hp.length_eq ▸ h)
  rw [hall]
  exact (hp.symm.map _).subset

section
variable {s s' : Shared}

theorem Pass.OnDuty.mono {p : Pass} {a b : Store} (h : p.OnDuty a)
    (he : b.entries ⊆ a.entries) (hh : b.slots.home = a.slots.home) : p.OnDuty b := by
  cases p with
  | collect shard seen =>
    intro e hm hlt
    rw [hh] at hlt
    exact h e (he hm) hlt
  | pick batch =>
    rcases h with h | h | h
    · exact .inl h
    · exact .inr (.inl h)
    · exact .inr (.inr (h.mono he))
  | take k chunk batch =>
    rcases h with h | h | h
    · exact .inl h
    · exact .inr (.inl h)
    · exact .inr (.inr (h.mono he))
  | _ => exact h

theorem Call.OnDuty.mono {c : Call} {a b : Store} (h : c.OnDuty a)
    (he : b.entries ⊆ a.entries) (hh : b.slots.home = a.slots.home) : c.OnDuty b := by
  cases c with
  | get k reader goal stage =>
    cases stage with
    | publish t chunk settled => cases settled <;> exact h
    | evict chunk p => exact Pass.OnDuty.mono h he hh
    | _ => exact h
  | evict p => exact Pass.OnDuty.mono h he hh
  | _ => exact h

/-- The weight is down, or a pass gave up though there was more, other than the first `n` that
did. -/
def Shared.Released (s : Shared) (n : Nat) : Prop :=
  s.store.residentWeight ≤ s.store.capacity.toNat ∨ n < s.gaveUp

theorem Pass.step_onDuty {p p' : Pass} (hp : s.store.slots.Proper)
    (hw : s.store.residentWeight ≤ s.store.weightedSize)
    (ht : s.store.targetWeight ≤ s.store.capacity.toNat) (hd : p.OnDuty s.store)
    (hs : p.step s = some (p', s')) : p'.OnDuty s'.store ∨ s'.Released s.gaveUp := by
  have hlight (g : Nat) (h : s.store.weightedSize ≤ s.store.targetWeight) :
      Shared.Released { s.endPass with gaveUp := g } s.gaveUp :=
    .inl (Nat.le_trans hw (Nat.le_trans h ht))
  have hempty (g : Nat) (h : s.store.Within []) :
      Shared.Released { s.endPass with gaveUp := g } s.gaveUp := by
    refine .inl ?_
    have hzero := Store.residentWeight_of_within_nil h
    exact hzero ▸ Nat.zero_le _
  -- A pass that has been through all the shards knows of all that is resident.
  have hall {shard : Nat} {seen : List (ChunkId × Resident)}
      (hi : s.store.slots.shardCount ≤ shard) (hd : OnDuty s.store (collect shard seen)) :
      s.store.Within (places seen) := fun e he ↦
    hd e he (Nat.lt_of_lt_of_le (ShardedMap.home_lt hp.shards_pos _) hi)
  cases steps hs with
  | spare hle => exact .inr (.inl (Nat.le_trans hw hle))
  | light hle | leave _ _ hle => exact .inr (hlight _ hle)
  | heavy => exact .inl fun e _ hlt ↦ absurd hlt (Nat.not_lt_zero _)
  | collect =>
    refine .inl fun e he hlt ↦ ?_
    simp only [places, List.map_append, List.mem_append]
    rcases Nat.lt_succ_iff_lt_or_eq.1 hlt with hlt | heq
    · exact .inl (hd e he hlt)
    · obtain ⟨r, hr, hc⟩ := Store.mem_residentsIn_home hp he
      rw [heq] at hr
      exact .inr (hc ▸ mem_places hr)
  | empty hi => exact .inr (hempty _ (hall hi hd))
  | @sort shard seen hi =>
    refine .inl ?_
    rcases hc : (batchOf s.store seen).cut with _ | _
    · exact .inr (.inr fun e he ↦ places_batchOf hc (hall hi hd e he))
    · exact .inr (.inl hc)
  | next hrest =>
    left
    rcases hd with hd | hd | hd
    · exact .inl hd
    · exact .inr (.inl hd)
    · rw [hrest] at hd
      exact .inr (.inr hd)
  | giveUp hnone hrest =>
    right
    rcases hd with hd | hd | hd
    · exact absurd hnone (Nat.ne_of_gt hd)
    · exact .inr (by simp [hd])
    · rw [hrest] at hd
      exact hempty _ hd
  | gone hn =>
    left
    rcases hd with hd | hd | hd
    · exact .inl hd
    · exact .inr (.inl hd)
    · refine .inr (.inr fun e hm ↦ ?_)
      rcases List.mem_cons.1 (hd e hm) with heq | hmem
      · obtain ⟨k', r, hr, rfl⟩ := Store.mem_entries.1 hm
        cases heq
        exact absurd rfl (hn r ((Store.mem_residents hp).1 hr))
      · exact hmem
  | retire => exact .inl (.inl (Nat.succ_pos _))
  | queue | enter | again | take | discount => exact .inl trivial

theorem Stage.step_onDuty {k : ChunkId} {c : Conduct} {x x' : Stage}
    (hp : s.store.slots.Proper) (hw : s.store.residentWeight ≤ s.store.weightedSize)
    (ht : s.store.targetWeight ≤ s.store.capacity.toNat) (hd : x.OnDuty s.store)
    (hs : x.step k c s = some (x', s')) : x'.OnDuty s'.store ∨ s'.Released s.gaveUp := by
  cases steps hs with
  | publish => exact .inl trivial
  | pass hq => exact Pass.step_onDuty hp hw ht hd hq
  | _ => exact hd.elim

theorem Call.step_onDuty {c : Conduct} {x x' : Call} (hp : s.store.slots.Proper)
    (hw : s.store.residentWeight ≤ s.store.weightedSize)
    (ht : s.store.targetWeight ≤ s.store.capacity.toNat) (hd : x.OnDuty s.store)
    (hs : x.step c s = some (x', s')) : x'.OnDuty s'.store ∨ s'.Released s.gaveUp := by
  cases steps hs with
  | stage h => exact Stage.step_onDuty hp hw ht hd h
  | evict h => exact Pass.step_onDuty hp hw ht hd h
  | _ => exact hd.elim

theorem Call.onDuty_of_admitted {x : Call} (h : x.admitted) : x.OnDuty s.store := by
  rcases x with ⟨k, reader, goal, stage⟩ | _ | _ | _ | _
  case get =>
    cases stage with
    | publish t chunk settled => cases settled <;> exact h
    | _ => exact h.elim
  all_goals exact h.elim

theorem Call.not_onDuty_of_ended {x : Call} {a : Store} (h : x.ended = true) : ¬ x.OnDuty a := by
  intro hd
  cases x with
  | get k reader goal stage =>
    cases stage with
    | publish t chunk settled => cases goal <;> cases h
    | evict chunk p => cases goal <;> cases h
    | _ => exact hd.elim
  | evict p =>
    cases p with
    | left => exact hd.elim
    | _ => cases h
  | _ => exact hd.elim

end

namespace Traffic
variable {t u v : Traffic}

/-- The weight is down, or one more pass gave up than `n`, or somebody is on duty. -/
def Guarded (t : Traffic) (n : Nat) : Prop :=
  t.shared.Released n ∨ ∃ c ∈ t.calls, c.OnDuty t.shared.store

theorem residentWeight_le (h : t.Weighed) :
    t.shared.store.residentWeight ≤ t.shared.store.weightedSize := by
  rw [h.weight]
  exact Nat.le_add_right _ _

theorem gaveUp_of_step {m : Move} (hw : t.Weighed) (hs : t.step m = some u) :
    t.shared.gaveUp ≤ u.shared.gaveUp := by
  rcases step_cases hs with ⟨i, conduct, rfl⟩ | ⟨-, -, -, -, hg, -⟩
  · obtain ⟨c, c', s, hi, hstep, rfl⟩ := advance_cases hs
    rcases Call.step_proceeds hw.proper hstep with hp | ⟨-, -, -, ha⟩
    · exact hp.gaveUp
    · exact ha.gaveUp
  · exact Nat.le_of_eq hg.symm

theorem advance_guarded {n i : Nat} {conduct : Conduct} (hw : t.Weighed)
    (ht : t.shared.store.targetWeight ≤ t.shared.store.capacity.toNat)
    (hn : n ≤ t.shared.gaveUp) (h : t.Guarded n) (hs : t.step (.advance i conduct) = some u) :
    u.Guarded n := by
  obtain ⟨c, c', s, hi, hstep, rfl⟩ := advance_cases hs
  obtain ⟨others, hold, hnew⟩ := calls_split hi
  have hmem (x : Call) : x ∈ t.calls.set i c' ↔ x = c' ∨ x ∈ others := by
    rw [(hnew c').mem_iff, List.mem_cons]
  rcases Call.step_proceeds hw.proper hstep with hp | ⟨hadmitted, -⟩
  · obtain ⟨gone, hgone⟩ := hp.drains
    have hsubset : s.store.entries ⊆ t.shared.store.entries := fun e he ↦
      hgone.symm.subset (List.mem_append_right _ he)
    have hweight : s.store.residentWeight ≤ t.shared.store.residentWeight := by
      have hsum := (hgone.map Entry.weight).sum_nat
      rw [List.map_append, List.sum_append] at hsum
      simp only [Store.residentWeight]
      omega
    have hcapacity : s.store.capacity = t.shared.store.capacity := by
      rw [Store.capacity, Store.capacity, hp.settings]
    -- Nothing becomes resident, so the weight does not grow, and who was on duty stays so.
    rcases h with (hle | hg) | ⟨x, hx, hd⟩
    · exact .inl (.inl (hcapacity ▸ Nat.le_trans hweight hle))
    · exact .inl (.inr (Nat.lt_of_lt_of_le hg hp.gaveUp))
    · rcases List.mem_cons.1 (hold.subset hx) with rfl | hx
      · rcases Call.step_onDuty hw.proper (residentWeight_le hw) ht hd hstep with hd | hle | hg
        · exact .inr ⟨c', (hmem c').2 (.inl rfl), hd⟩
        · exact .inl (.inl hle)
        · exact .inl (.inr (Nat.lt_of_le_of_lt hn hg))
      · exact .inr ⟨x, (hmem x).2 (.inr hx), hd.mono hsubset hp.home⟩
  -- Who has just made a chunk resident comes on duty.
  · exact .inr ⟨c', (hmem c').2 (.inl rfl), Call.onDuty_of_admitted hadmitted⟩

theorem step_guarded {n : Nat} {m : Move} (hw : t.Weighed)
    (ht : t.shared.store.targetWeight ≤ t.shared.store.capacity.toNat)
    (hn : n ≤ t.shared.gaveUp) (h : t.Guarded n) (hs : t.step m = some u) : u.Guarded n := by
  rcases step_cases hs with ⟨i, conduct, rfl⟩ | ⟨hcalls, hslots, -, hset, hg, -⟩
  · exact advance_guarded hw ht hn h hs
  · have hentries : u.shared.store.entries = t.shared.store.entries := by
      simp only [Store.entries, Store.residents, hslots]
    have hhome : u.shared.store.slots.home = t.shared.store.slots.home := by rw [hslots]
    rcases h with (hle | hmore) | ⟨x, hx, hd⟩
    · refine .inl (.inl ?_)
      rwa [Store.residentWeight, hentries, Store.capacity, hset]
    · exact .inl (.inr (hg ▸ hmore))
    · have hx' : x ∈ u.calls := by
        rcases hcalls with he | ⟨c, he⟩ <;> rw [he]
        · exact hx
        · exact List.mem_append_left _ hx
      exact .inr ⟨x, hx', hd.mono (by rw [hentries]; exact List.Subset.refl _) hhome⟩

theorem guarded_of_reaches {sane : Traffic → Prop} (hw : t.Weighed)
    (htarget : t.shared.store.targetWeight ≤ t.shared.store.capacity.toNat)
    (hle : t.shared.store.weightedSize ≤ t.shared.store.capacity.toNat) (h : t.Reaches sane u) :
    t.shared.gaveUp ≤ u.shared.gaveUp ∧ u.Guarded t.shared.gaveUp := by
  induction h with
  | refl => exact ⟨Nat.le_refl _, .inl (.inl (Nat.le_trans (residentWeight_le hw) hle))⟩
  | @step v w m hr hs _ ih =>
    obtain ⟨hn, hguarded⟩ := ih
    have hset := settings_of_reaches hw hr
    have htarget' : v.shared.store.targetWeight ≤ v.shared.store.capacity.toNat := by
      simpa only [Store.targetWeight, Store.capacity, hset] using htarget
    have hv := weighed_of_reaches hw hr
    exact ⟨Nat.le_trans hn (gaveUp_of_step hv hs), step_guarded hv htarget' hn hguarded hs⟩

theorem owes_of_idle (h : t.idle = true) : t.owes = 0 := by
  refine List.sum_eq_zero_iff_forall_eq_nat.2 fun n hn ↦ ?_
  obtain ⟨c, hc, rfl⟩ := List.mem_map.1 hn
  exact Call.owes_of_ended (List.all_eq_true.1 h c hc)

theorem weightedSize_le_of_idle {sane : Traffic → Prop} (hw : t.Weighed)
    (htarget : t.shared.store.targetWeight ≤ t.shared.store.capacity.toNat)
    (hle : t.shared.store.weightedSize ≤ t.shared.store.capacity.toNat)
    (h : t.Reaches sane u) (hidle : u.idle = true) (hg : u.shared.gaveUp = t.shared.gaveUp) :
    u.shared.store.weightedSize ≤ u.shared.store.capacity.toNat := by
  rw [(weighed_of_reaches hw h).weight, owes_of_idle hidle, Nat.add_zero]
  obtain ⟨-, (hlight | hmore) | ⟨c, hc, hd⟩⟩ := guarded_of_reaches hw htarget hle h
  · exact hlight
  · omega
  · exact absurd hd (Call.not_onDuty_of_ended (List.all_eq_true.1 hidle c hc))

/-- At rest the weight is within the capacity, in whatever order the steps of the calls came, unless
a pass gave up while there was more to take, and did so since the weight was last within it. No pass
ever does where no invalidation is under way while one has the right to evict. -/
theorem within_capacity_at_rest {sane : Traffic → Prop} (ht : t.Initial)
    (hb : t.shared.store.batchSize ≠ 0)
    (htarget : t.shared.store.targetWeight ≤ t.shared.store.capacity.toNat) :
    (∀ u v, t.Reaches sane u →
      u.shared.store.weightedSize ≤ u.shared.store.capacity.toNat → u.Reaches sane v →
      v.idle = true → v.shared.gaveUp = u.shared.gaveUp →
      v.shared.store.weightedSize ≤ v.shared.store.capacity.toNat) ∧
    ∀ u, t.Reaches Apart u → u.idle = true →
      u.shared.store.weightedSize ≤ u.shared.store.capacity.toNat := by
  have hw := weighed_of_initial ht
  refine ⟨fun u v hu hle hv hidle hg ↦ ?_, fun u hu hidle ↦ ?_⟩
  · have hset := settings_of_reaches hw hu
    have htarget' : u.shared.store.targetWeight ≤ u.shared.store.capacity.toNat := by
      simpa only [Store.targetWeight, Store.capacity, hset] using htarget
    exact weightedSize_le_of_idle (weighed_of_reaches hw hu) htarget' hle hv hidle hg
  · have hzero : t.shared.store.weightedSize ≤ t.shared.store.capacity.toNat := by
      rw [weightedSize_of_initial ht]
      exact Nat.zero_le _
    apply weightedSize_le_of_idle hw htarget hzero hu hidle
    rw [gaveUp_of_apart ht hb hu, ht.gaveUp]

/-- Two files are loaded one after the other, and then there is no room left. -/
theorem within_capacity_at_rest_after_load :
    ∃ t u v : Traffic, t.Initial ∧ t.Reaches Modest u ∧
      u.shared.store.weightedSize ≤ u.shared.store.capacity.toNat ∧ u.Reaches Modest v ∧
      v.shared.store.weightedSize ≤ v.shared.store.capacity.toNat ∧ t.Reaches Apart u ∧
      u.idle = true := by
  have hstart : (create? tight ChunkId.hash).all fun t ↦
      t.shared.store.batchSize ≠ 0 ∧
        t.shared.store.targetWeight ≤ t.shared.store.capacity.toNat := by decide +kernel
  have hend : ((create? tight ChunkId.hash).bind (·.run (loadSmall 0 "a" 6 8))).any fun u ↦
      u.idle = true ∧ (u.run (loadSmall 1 "b" 4 8)).any fun v ↦
        v.idle = true ∧ v.shared.gaveUp = u.shared.gaveUp := by decide +kernel
  obtain ⟨u, hu, hrest⟩ := (Option.any_eq_true _ _).1 hend
  obtain ⟨t, ht, hload⟩ := Option.bind_eq_some_iff.1 hu
  simp only [decide_eq_true_eq, Option.any_eq_true] at hrest
  obtain ⟨hidle, v, hv, hidle', hg⟩ := hrest
  simp only [ht, Option.all_some, decide_eq_true_eq] at hstart
  have hinitial := initial_of_create? ht
  have happart : t.Reaches Apart u := by
    refine reaches_apart_of_run (fun c hc ↦ ?_) (fun c hc ↦ ?_) hload
    · simp only [loadSmall, alone, List.mem_cons, List.mem_replicate, Move.start.injEq, reduceCtorEq,
        and_false, or_false] at hc
      rw [hc]
      rfl
    · rw [hinitial.calls] at hc
      exact absurd hc List.not_mem_nil
  have hrest := @within_capacity_at_rest t Modest hinitial hstart.1 hstart.2
  have hle := hrest.2 u happart hidle
  exact ⟨t, u, v, hinitial, reaches_of_run hload, hle, reaches_of_run hv,
    hrest.1 u v (reaches_of_run hload) hle (reaches_of_run hv) hidle' hg, happart, hidle⟩

def crowded? : Option Traffic :=
  (create? tight fun _ ↦ 0).bind
    (·.run (loadSmall 0 "a" 1 8 ++ loadSmall 1 "b" 5 8 ++ loadSmall 2 "c" 6 10))

def seenByThird : List (ChunkId × Resident) :=
  [((smallFile "a" 1).chunkId 0, ⟨0, 1, 0⟩), ((smallFile "b" 5).chunkId 0, ⟨1, 5, 1⟩),
    ((smallFile "c" 6).chunkId 0, ⟨2, 6, 2⟩)]

def third (p : Pass) : Call := .get ((smallFile "c" 6).chunkId 0) 0 .chunk (.evict 2 p)

def picked? : Option Traffic :=
  crowded?.map fun t ↦
    ⟨t.shared, t.calls.set 2 (third (.pick ⟨seenByThird.take 1, 0, true⟩))⟩

theorem step_crowded {t u : Traffic} (ht : crowded? = some t) (hu : picked? = some u)
    (conduct : Conduct) : t.step (.advance 2 conduct) = some u := by
  have hcall : crowded?.bind (·.calls[2]?) = some (third (.collect 1 seenByThird)) := by rfl
  have hshape : crowded?.all fun t ↦
      t.shared.store.slots.shardCount = 1 ∧ t.shared.store.batchSize = 1 := by decide +kernel
  have hset : crowded?.map (·.shared.store.settings) = some tight := by rfl
  simp only [ht, Option.bind_some, Option.all_some, Option.map_some, Option.some.injEq,
    decide_eq_true_eq] at hcall hshape hset
  have hbatch : Pass.batchOf t.shared.store seenByThird = ⟨seenByThird.take 1, 0, true⟩ := by
    have hage : ByAge seenByThird := by simp [ByAge, seenByThird]
    have harrange : t.shared.store.settings.ties.arrange t.shared.store.clock seenByThird =
        seenByThird := by
      rw [hset]
      rfl
    simp only [Pass.batchOf, Engine.leastRecent_of_arranged harrange hage, hshape.2]
    rfl
  simp only [picked?, ht, Option.map_some, Option.some.injEq] at hu
  subst hu
  simp only [step, hcall, third, Call.step, Stage.step, Pass.step, hshape.1, hbatch]
  rfl

/-- Between the third load's look at the table and its try at the one candidate of its batch, that
candidate is invalidated. The pass gives up, and nobody looks again. -/
theorem over_capacity_at_rest :
    ∃ t u : Traffic, t.Initial ∧ t.shared.store.settings.eviction.validate = .ok () ∧
      t.shared.store.targetWeight ≤ t.shared.store.capacity.toNat ∧
      t.Reaches Modest u ∧ u.idle = true ∧
      u.shared.store.capacity.toNat < u.shared.store.weightedSize := by
  have hstart : (create? tight fun _ ↦ 0).any fun t ↦
      t.shared.store.settings.eviction.validate = .ok () ∧
      t.shared.store.targetWeight ≤ t.shared.store.capacity.toNat := by decide +kernel
  have hend : (picked?.bind (·.run
      (alone 3 (.invalidate ((smallFile "a" 1).chunkId 0)) (.ofReader (smallFile "a" 1) 0) 3 ++
        List.replicate 4 (.advance 2 (.ofReader (smallFile "c" 6) 0))))).any fun u ↦
      u.idle = true ∧ u.shared.store.capacity.toNat < u.shared.store.weightedSize := by
    decide +kernel
  obtain ⟨t, ht, hvalid⟩ := (Option.any_eq_true _ _).1 hstart
  obtain ⟨u, hu, hover⟩ := (Option.any_eq_true _ _).1 hend
  obtain ⟨w, hw, hrest⟩ := Option.bind_eq_some_iff.1 hu
  obtain ⟨v, hv, -⟩ := Option.map_eq_some_iff.1 hw
  have hload := hv
  rw [crowded?, ht, Option.bind_some] at hload
  simp only [decide_eq_true_eq] at hvalid hover
  have hmodest : w.Modest := by
    have hnone : picked?.all fun t ↦ t.shared.handles.length = 0 := by decide +kernel
    simp only [hw, Option.all_some, decide_eq_true_eq, List.length_eq_zero_iff] at hnone
    simp [Modest, hnone]
  refine ⟨t, u, initial_of_create? ht, hvalid.1, hvalid.2, ?_, hover⟩
  exact ((reaches_of_run hload).trans
    (.step (.advance 2 (.ofReader (smallFile "c" 6) 0)) .refl (step_crowded hv hw _) hmodest)).trans
    (reaches_of_run hrest)

end Traffic
end ReadCache
