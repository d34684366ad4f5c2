import ReadCache.Proofs.SingleFlight

namespace ReadCache

namespace Call

def reading : Call → Bool
  | get _ _ _ (.read ..) | direct _ _ _ (.read _) => true
  | _ => false

def key? : Call → Option ChunkId
  | get k .. | direct _ k .. => some k
  | _ => none

def clears (s : Store) (k : ChunkId) : Call → Bool
  | invalidate k' .detach => k' = k
  | sweep matches? (.clear i _) => matches? k && s.slots.home k = i
  | _ => false

/-- The call has invalidated `k`, alone or with others, and has returned. -/
def hasInvalidated (k : ChunkId) : Call → Bool
  | invalidate k' (.ended _) => k' = k
  | sweep matches? (.ended _) => matches? k
  | _ => false

end Call

namespace Tick

def startsRead (i : Nat) (x : Tick) : Bool :=
  x.mover? = some i && x.came?.any (!·.reading) && x.went?.any Call.reading

def brings (c : ChunkRef) (x : Tick) : Bool :=
  x.before.shared.memory.chunks.size = c && x.after.shared.memory.chunks.size = c + 1

def removes (j : Nat) (k : ChunkId) (x : Tick) : Bool :=
  x.mover? = some j && x.came?.any (·.clears x.before.shared.store k)

def requests (k : ChunkId) (x : Tick) : Bool :=
  match x.move with
  | .start c => c.call.key? = some k
  | _ => false

end Tick

/-- The chunk came with the move `m`, out of a physical read that the call `i` started with the move
`n`. -/
structure ReadBy (log : List Tick) (i : Nat) (c : ChunkRef) (n m : Nat) : Prop where
  lt : n < m
  starts : ∃ x : Tick, log[n]? = some x ∧ x.startsRead i = true
  brings : ∃ y : Tick, log[m]? = some y ∧ y.mover? = some i ∧ y.brings c = true
  between : ∀ (l : Nat) (z : Tick), n < l → l < m → log[l]? = some z → z.mover? ≠ some i

def Reading (log : List Tick) (i : Nat) : Prop :=
  ∃ (n : Nat) (x : Tick), log[n]? = some x ∧ x.startsRead i = true ∧
    ∀ (l : Nat) (z : Tick), n < l → log[l]? = some z → z.mover? ≠ some i

def Brought (log : List Tick) (c : ChunkRef) : Prop := ∃ i n m, ReadBy log i c n m

section
variable {log : List Tick} {x : Tick} {i : Nat} {c : ChunkRef}

theorem getElem?_snoc {l : Nat} {z : Tick} (hz : log[l]? = some z) (y : Tick) :
    (log ++ [y])[l]? = some z := by
  rwa [List.getElem?_append_left (List.getElem?_eq_some_iff.1 hz).1]

theorem ReadBy.snoc {n m : Nat} (h : ReadBy log i c n m) (y : Tick) :
    ReadBy (log ++ [y]) i c n m := by
  obtain ⟨x, hx, hstart⟩ := h.starts
  obtain ⟨z, hz, hbring⟩ := h.brings
  refine ⟨h.lt, ⟨x, getElem?_snoc hx y, hstart⟩, ⟨z, getElem?_snoc hz y, hbring⟩, ?_⟩
  intro l w hnl hlm hw
  have hlt := (List.getElem?_eq_some_iff.1 hz).1
  rw [List.getElem?_append_left (hlm.trans hlt)] at hw
  exact h.between l w hnl hlm hw

theorem Brought.snoc (h : Brought log c) (y : Tick) : Brought (log ++ [y]) c := by
  obtain ⟨i, n, m, h⟩ := h
  exact ⟨i, n, m, h.snoc y⟩

theorem Reading.snoc (h : Reading log i) {y : Tick} (hy : y.mover? ≠ some i) :
    Reading (log ++ [y]) i := by
  obtain ⟨n, x, hx, hstart, hlast⟩ := h
  refine ⟨n, x, getElem?_snoc hx y, hstart, fun l z hl hz ↦ ?_⟩
  rcases getElem?_of_snoc hz with hz | ⟨-, rfl⟩
  · exact hlast l z hl hz
  · exact hy

theorem Reading.starts (hx : x.startsRead i = true) : Reading (log ++ [x]) i := by
  refine ⟨log.length, x, by simp, hx, fun l z hl hz ↦ ?_⟩
  have hlt := (List.getElem?_eq_some_iff.1 hz).1
  simp only [List.length_append, List.length_singleton] at hlt
  omega

theorem Reading.brings (h : Reading log i) (hm : x.mover? = some i) (hx : x.brings c = true) :
    Brought (log ++ [x]) c := by
  obtain ⟨n, y, hy, hstart, hlast⟩ := h
  have hlt := (List.getElem?_eq_some_iff.1 hy).1
  refine ⟨i, n, log.length, hlt, ⟨y, getElem?_snoc hy x, hstart⟩, ⟨x, by simp, hm, hx⟩, ?_⟩
  intro l z hnl hl hz
  rw [List.getElem?_append_left hl] at hz
  exact hlast l z hnl hz

theorem ReadBy.of_drop {n m d : Nat} (h : ReadBy (log.drop d) i c n m) :
    ReadBy log i c (d + n) (d + m) := by
  obtain ⟨x, hx, hstart⟩ := h.starts
  obtain ⟨y, hy, hbring⟩ := h.brings
  rw [List.getElem?_drop] at hx hy
  refine ⟨Nat.add_lt_add_left h.lt d, ⟨x, hx, hstart⟩, ⟨y, hy, hbring⟩, fun l z hnl hlm hz ↦ ?_⟩
  refine h.between (l - d) z (by omega) (by omega) ?_
  rwa [List.getElem?_drop, Nat.add_sub_cancel' (by omega)]

end

namespace Traffic
variable {t u v : Traffic} {log : List Tick} {m : Move}

theorem Records.chunks_le {n n' : Nat} {x y : Tick} (hp : t.shared.store.slots.Proper)
    (h : Records t log v) (hx : log[n]? = some x) (hy : log[n']? = some y) (hlt : n < n') :
    x.after.shared.memory.chunks.size ≤ y.before.shared.memory.chunks.size := by
  obtain ⟨hbefore, hs, -⟩ := h.at hx
  have hpb := hbefore.proper hp
  obtain ⟨_, -, hbetween⟩ := h.between hx hy hlt
  exact (hbetween.grows ((step_goes hpb hs).grows hpb).proper).chunks

theorem ReadBy.unique {i i' n n' m m' : Nat} {c : ChunkRef} (hp : t.shared.store.slots.Proper)
    (hr : Records t log v) (h : ReadBy log i c n m) (h' : ReadBy log i' c n' m') : n = n' := by
  obtain ⟨y, hy, hmover, hbring⟩ := h.brings
  obtain ⟨y', hy', hmover', hbring'⟩ := h'.brings
  simp only [Tick.brings, Bool.and_eq_true, decide_eq_true_eq] at hbring hbring'
  have hm : m = m' := by
    rcases Nat.lt_trichotomy m m' with hlt | he | hlt
    · have hle := hr.chunks_le hp hy hy' hlt
      omega
    · exact he
    · have hle := hr.chunks_le hp hy' hy hlt
      omega
  subst hm
  rw [hy] at hy'
  cases hy'
  rw [hmover] at hmover'
  cases hmover'
  obtain ⟨x, hx, hstart⟩ := h.starts
  obtain ⟨x', hx', hstart'⟩ := h'.starts
  simp only [Tick.startsRead, Bool.and_eq_true, decide_eq_true_eq] at hstart hstart'
  rcases Nat.lt_trichotomy n n' with hlt | he | hlt
  · exact absurd hstart'.1.1 (h.between n' x' hlt h'.lt hx')
  · exact he
  · exact absurd hstart.1.1 (h'.between n x hlt h.lt hx)

end Traffic

/-- A load with a ticket from `n` on was read in this history. -/
def Stage.Recent (n : Ticket) (log : List Tick) (i : Nat) : Stage → Prop
  | read t _ => n ≤ t → Reading log i
  | settle t c _ | publish t c _ => n ≤ t → Brought log c
  | _ => True

/-- The stage has to do with loads from `n` on only, and what it has been given was read in this
history. -/
def Stage.Fresh (n : Ticket) (log : List Tick) : Stage → Prop
  | await t | borrow t | read t _ | settle t _ _ | publish t _ _ => n ≤ t
  | replace c | evict c _ | answered (.ok c) | holding c => Brought log c
  | _ => True

def Direct.Fresh (log : List Tick) (i : Nat) : Direct → Prop
  | read _ => Reading log i
  | ended (.ok c) => Brought log c
  | _ => True

namespace Call

def Recent (n : Ticket) (log : List Tick) (i : Nat) : Call → Prop
  | get _ _ _ stage => stage.Recent n log i
  | _ => True

def Fresh (n : Ticket) (log : List Tick) (i : Nat) : Call → Prop
  | get _ _ _ stage => stage.Fresh n log
  | direct _ _ _ stage => stage.Fresh log i
  | _ => True

variable {n : Ticket} {log : List Tick} {i : Nat} {c : Call} {y : Tick}

theorem Recent.snoc (h : c.Recent n log i) (hy : y.mover? ≠ some i) :
    c.Recent n (log ++ [y]) i := by
  cases c with
  | get k reader goal stage =>
    cases stage with
    | read t b => exact fun hn ↦ (h hn).snoc hy
    | settle | publish => exact fun hn ↦ (h hn).snoc y
    | _ => trivial
  | _ => trivial

theorem Fresh.snoc (h : c.Fresh n log i) (hy : y.mover? ≠ some i) : c.Fresh n (log ++ [y]) i := by
  cases c with
  | get k reader goal stage =>
    cases stage with
    | replace | evict | holding => exact Brought.snoc h y
    | answered answer =>
      cases answer with
      | ok c => exact Brought.snoc h y
      | error f => trivial
    | _ => exact h
  | direct asked k reader stage =>
    cases stage with
    | read b => exact Reading.snoc h hy
    | ended answer =>
      cases answer with
      | ok c => exact Brought.snoc h y
      | error f => trivial
    | borrow => trivial
  | _ => trivial

theorem Fresh.given {d : ChunkRef} (h : c.Fresh n log i) (hd : c.given? = some d) :
    Brought log d := by
  unfold given? at hd
  split at hd <;> cases hd <;> exact h

theorem Goes.key? {s s' : Shared} {x x' : Call} (h : Goes s x x' s') : x'.key? = x.key? := by
  cases h <;> rfl

theorem recent_start (c : Start) : c.call.Recent n log i ∧ c.call.Fresh n log i := by
  rcases c.call_cases with ⟨k, reader, goal, x, he, rfl | ⟨f, rfl⟩⟩ | ⟨asked, k, reader, he⟩ |
    ⟨k, he⟩ | ⟨matches?, he⟩ | he <;> rw [he] <;> exact ⟨trivial, trivial⟩

end Call

namespace Traffic
variable {t u v : Traffic} {log : List Tick} {m : Move} {k : ChunkId} {n : Ticket} {first : Nat}

/-- Loads of `k` from `n` on, and the calls from `first` on that ask for it, have what was read in
this history. -/
structure Fresh (k : ChunkId) (n : Ticket) (first : Nat) (log : List Tick)
    (u : Traffic) : Prop where
  results : n ≤ u.shared.store.results.size
  loading : ∀ p, u.shared.store.occupant? k = some (.loading p) → n ≤ p
  resident : ∀ c w, u.shared.store.occupant? k = some (.resident c w) → Brought log c
  result : ∀ p c, n ≤ p → u.shared.store.result? p = some (.ok c) → Brought log c
  recent : ∀ (i : Nat) (c : Call), u.calls[i]? = some c → c.Recent n log i
  fresh : ∀ (i : Nat) (c : Call), first ≤ i → u.calls[i]? = some c → c.key? = some k →
    c.Fresh n log i

theorem fresh_of_free (hf : t.Flights) (hk : t.shared.store.occupant? k = none) :
    Fresh k t.shared.store.results.size t.calls.length [] t where
  results := Nat.le_refl _
  loading p hp := by
    rw [hk] at hp
    cases hp
  resident c w hc := by
    rw [hk] at hc
    cases hc
  result p c hle hr := absurd hle (Nat.not_le_of_lt (Store.lt_of_result? hr))
  -- The loads that run have tickets below those to come.
  recent i c hi := by
    have hold {p : Ticket} (hp : c.runs? = some p)
        (hle : t.shared.store.results.size ≤ p) : False :=
      Nat.not_le_of_lt (Store.pending_iff.1
        (hf.pending_of_runs (List.mem_of_getElem? hi) (decide_eq_true hp))).1 hle
    cases c with
    | get k reader goal stage =>
      cases stage with
      | read | settle | publish => exact fun hle ↦ (hold rfl hle).elim
      | _ => trivial
    | _ => trivial
  fresh i c hle hi := absurd (List.getElem?_eq_some_iff.1 hi).1 (Nat.not_lt_of_le hle)

section
variable {i : Nat} {conduct : Conduct} {c c' : Call} {s : Shared}

theorem recent_of_goes (hi : t.calls[i]? = some c) (hgo : c.Goes t.shared c' s)
    (h : c.Recent n log i) :
    c'.Recent n (log ++ [⟨t, .advance i conduct, ⟨s, t.calls.set i c'⟩⟩]) i := by
  cases hgo with
  | stage hgo =>
    cases hgo with
    | borrow =>
      refine fun _ ↦ Reading.starts ?_
      simp [Tick.startsRead, Tick.mover?, came?_advance hi, went?_advance hi, Call.reading]
    | arrive hturns _ => exact fun hn ↦ (h hn).brings rfl (by simp [Tick.brings, hturns.size])
    | settle | lose => exact fun hn ↦ (h hn).snoc _
    | @publish q d settled s' _ => cases settled <;> trivial
    | _ => trivial
  | _ => trivial

theorem fresh_of_goes (hinv : Fresh k n first log t) (hi : t.calls[i]? = some c)
    (hkey : c.key? = some k) (hgo : c.Goes t.shared c' s) (h : c.Fresh n log i) :
    c'.Fresh n (log ++ [⟨t, .advance i conduct, ⟨s, t.calls.set i c'⟩⟩]) i := by
  have hrecent := hinv.recent i c hi
  cases hgo with
  | stage hgo =>
    cases hkey
    cases hgo with
    | hit _ hk _ => exact (hinv.resident _ _ hk).snoc _
    | join _ hk _ => exact hinv.loading _ hk
    | begin => exact hinv.results
    | @receive q r hr =>
      cases r with
      | ok d => exact (hinv.result q d h hr).snoc _
      | error e => trivial
    | borrow | arrive | settle | lose => exact h
    | @publish q d settled s' _ => cases settled <;> exact (hrecent h).snoc _
    | replace | leave | pass => exact Brought.snoc h _
    | _ => trivial
  | take => exact Brought.snoc h _
  | retry | refuse => trivial
  | direct hgo =>
    cases hgo with
    | borrow =>
      refine Reading.starts ?_
      simp [Tick.startsRead, Tick.mover?, came?_advance hi, went?_advance hi, Call.reading]
    | arrive hturns => exact Reading.brings h rfl (by simp [Tick.brings, hturns.size])
    | refuse | fail => trivial
  | _ => trivial

theorem told_of_recent {p : Ticket} {d : ChunkRef} (h : c.Recent n log i)
    (htells : c.tells? = some (p, .ok d)) (hle : n ≤ p) : Brought log d := by
  cases c with
  | get k reader goal stage =>
    cases stage with
    | publish =>
      cases htells
      exact h hle
    | _ => cases htells
  | _ => cases htells

end

theorem goes_fresh (hp : t.shared.store.slots.Proper) (h : Fresh k n first log t)
    (hs : t.Goes m u) : Fresh k n first (log ++ [⟨t, m, u⟩]) u := by
  have hresults := h.results.trans (hs.grows hp).results
  cases hs with
  | start c =>
    refine ⟨hresults, h.loading, fun c w hc ↦ (h.resident c w hc).snoc _,
      fun p c hle hr ↦ (h.result p c hle hr).snoc _, fun i d hi ↦ ?_, fun i d hle hi hkey ↦ ?_⟩
    · rcases getElem?_of_snoc hi with hi | ⟨-, rfl⟩
      · exact (h.recent i d hi).snoc (by simp [Tick.mover?])
      · exact (Call.recent_start c).1
    · rcases getElem?_of_snoc hi with hi | ⟨-, rfl⟩
      · exact (h.fresh i d hle hi hkey).snoc (by simp [Tick.mover?])
      · exact (Call.recent_start c).2
  | @advance i conduct c c' s hi hgo =>
    have heffect := hgo.effect hp
    have hrecent := h.recent i c hi
    refine ⟨hresults, fun p hk ↦ ?_, fun d w hk ↦ ?_, fun p d hle hr ↦ ?_, fun j x hj ↦ ?_,
      fun j x hle hj hkey ↦ ?_⟩
    · rcases heffect.loading hk with hold | ⟨-, rfl⟩
      · exact h.loading p hold
      · exact h.results
    -- What becomes resident comes from a load that was in the slot, which is a later one.
    · rcases heffect.resident hk with hold | ⟨reader, goal, q, rfl, -, hq⟩
      · exact (h.resident d w hold).snoc _
      · exact Brought.snoc (hrecent (h.loading q hq)) _
    · rcases heffect.result hr with hold | htells
      · exact (h.result p d hle hold).snoc _
      · exact (told_of_recent hrecent htells hle).snoc _
    · rcases getElem?_of_set hj with ⟨rfl, rfl⟩ | ⟨hne, hj⟩
      · exact recent_of_goes hi hgo hrecent
      · exact (h.recent j x hj).snoc (by simpa [Tick.mover?] using hne)
    · rcases getElem?_of_set hj with ⟨rfl, rfl⟩ | ⟨hne, hj⟩
      · rw [hgo.key?] at hkey
        exact fresh_of_goes h hi hkey hgo (h.fresh i c hle hi hkey)
      · exact (h.fresh j x hle hj hkey).snoc (by simpa [Tick.mover?] using hne)
  | other store _ _ _ _ hm =>
    refine ⟨hresults, fun p hk ↦ h.loading p (store.occupants ▸ hk),
      fun c w hc ↦ (h.resident c w (store.occupants ▸ hc)).snoc _,
      fun p c hle hr ↦ (h.result p c hle (Store.result?_of_results store.results ▸ hr)).snoc _,
      fun i c hi ↦ (h.recent i c hi).snoc (by simp [mover?_other hm]),
      fun i c hle hi hkey ↦ (h.fresh i c hle hi hkey).snoc (by simp [mover?_other hm])⟩

end Traffic

def Sweep.passed (shards : Nat) : Sweep → Nat
  | clear shard _ | discount shard _ _ => shard
  | _ => shards

namespace Call

def hasCleared (s : Store) (k : ChunkId) : Call → Bool
  | invalidate _ .detach => false
  | invalidate k' _ => k' = k
  | sweep matches? x => matches? k && s.slots.home k < x.passed s.slots.shardCount
  | _ => false

variable {s s' : Shared} {c c' : Call} {k : ChunkId} {conduct : Conduct}

theorem hasCleared_of_hasInvalidated (hp : s.store.slots.Proper) (h : c.hasInvalidated k = true) :
    c.hasCleared s.store k = true := by
  unfold hasInvalidated at h
  split at h
  · exact h
  · simpa [hasCleared, Sweep.passed, ShardedMap.home_lt hp.shards_pos] using h
  · cases h

theorem hasCleared_congr {a b : Store} (hh : b.slots.home = a.slots.home)
    (hn : b.slots.shardCount = a.slots.shardCount) (c : Call) :
    c.hasCleared b k = c.hasCleared a k := by
  unfold hasCleared
  split
  · rfl
  · rfl
  · rw [hh, hn]
  · rfl

theorem hasCleared_of_step (hp : s.store.slots.Proper) (hs : c.step conduct s = some (c', s'))
    (h : c'.hasCleared s.store k = true) :
    c.hasCleared s.store k = true ∨ c.clears s.store k = true := by
  cases step_goes hp hs with
  | @invalidate k' x x' =>
    have hk : k' = k := by
      cases x' with
      | detach => cases h
      | _ => exact of_decide_eq_true h
    cases x with
    | detach => exact .inr (decide_eq_true hk)
    | _ => exact .inl (decide_eq_true hk)
  | @sweep matches? x x' =>
    simp only [hasCleared, Bool.and_eq_true, decide_eq_true_eq] at h
    obtain ⟨hmatch, hhome⟩ := h
    simp only [hasCleared, clears, hmatch, Bool.true_and, decide_eq_true_eq]
    cases steps hs with
    | sweep hstep =>
      cases Sweep.steps hstep with
      | clear => exact (Nat.lt_succ_iff_lt_or_eq.1 hhome).imp_right fun he ↦ by simp [hmatch, he]
      | through hi => exact .inl (Nat.lt_of_lt_of_le hhome hi)
      | discount | next | retire | leave => exact .inl hhome
  | _ => cases h

theorem free_of_clears (hp : s.store.slots.Proper) (hs : c.step conduct s = some (c', s'))
    (h : c.clears s.store k = true) : s'.store.occupant? k = none := by
  unfold clears at h
  split at h
  · obtain rfl := of_decide_eq_true h
    rename_i k
    have hgone := (Store.frees_detach hp k).occupants
    cases steps hs with
    | invalidate hstep =>
      cases Removal.steps hstep with
      | take | clear =>
        show (s.store.detach k).2.occupant? k = none
        simp [hgone, Store.Occupants.free]
  · rename_i matches? shard out
    simp only [Bool.and_eq_true, decide_eq_true_eq] at h
    obtain ⟨hmatch, rfl⟩ := h
    have hgone := (Store.frees_detachMatching hp (s.store.slots.home k) matches?).occupants
    cases steps hs with
    | sweep hstep =>
      cases Sweep.steps hstep with
      | clear =>
        show (s.store.detachMatching _ matches?).2.occupant? k = none
        simp [hgone, Store.Occupants.free, hmatch]
      | through hi => exact absurd (ShardedMap.home_lt hp.shards_pos k) (Nat.not_lt_of_le hi)
  · cases h

theorem step_of_hasInvalidated (h : c.hasInvalidated k = true) : c.step conduct s = none := by
  unfold hasInvalidated at h
  split at h
  · rfl
  · rfl
  · cases h

theorem clears_of_hasInvalidated (h : c.hasInvalidated k = true) (s : Store) (k' : ChunkId) :
    c.clears s k' = false := by
  unfold hasInvalidated at h
  split at h
  · rfl
  · rfl
  · cases h

end Call

namespace Traffic
variable {t u v : Traffic} {log : List Tick} {m : Move} {k : ChunkId} {j : Nat} {c : Call}

theorem free_of_removes (hp : t.shared.store.slots.Proper) (hs : t.step m = some u)
    (h : (⟨t, m, u⟩ : Tick).removes j k = true) : u.shared.store.occupant? k = none := by
  simp only [Tick.removes, Bool.and_eq_true, decide_eq_true_eq, Option.any_eq_true] at h
  obtain ⟨hmover, c, hcame, hclears⟩ := h
  cases m with
  | advance i conduct =>
    obtain ⟨c', d, s, hi, hstep, rfl⟩ := advance_cases hs
    obtain rfl : c' = c := Option.some.inj (hi.symm.trans hcame)
    exact Call.free_of_clears hp hstep hclears
  | _ => cases hmover

theorem Records.removed (ht : t.shared.store.slots.Proper) (hnone : t.calls = [])
    (h : Records t log v) : ∀ (j : Nat) (c : Call), v.calls[j]? = some c →
      c.hasCleared v.shared.store k = true → ∃ x ∈ log, x.removes j k = true := by
  refine h.invariant (P := fun log v ↦ ∀ (j : Nat) (c : Call), v.calls[j]? = some c →
    c.hasCleared v.shared.store k = true → ∃ x ∈ log, x.removes j k = true) ht
    (fun j c hj ↦ by rw [hnone] at hj; cases hj) ?_
  intro log u m v hp ih hs j c hj hc
  have hgrows := (step_goes hp hs).grows hp
  have hkept {d : Call} (hj : u.calls[j]? = some d) (hc : d.hasCleared u.shared.store k = true) :
      ∃ x ∈ log ++ [⟨u, m, v⟩], x.removes j k = true := by
    obtain ⟨x, hx, hremoves⟩ := ih j d hj hc
    exact ⟨x, List.mem_append_left _ hx, hremoves⟩
  rw [Call.hasCleared_congr hgrows.home hgrows.shardCount] at hc
  cases step_goes hp hs with
  | start call =>
    rcases getElem?_of_snoc hj with hj | ⟨-, rfl⟩
    · exact hkept hj hc
    · rcases call.call_cases with ⟨k, reader, goal, x, he, -⟩ | ⟨asked, k, reader, he⟩ | ⟨k, he⟩ |
        ⟨matches?, he⟩ | he <;> rw [he] at hc
      · cases hc
      · cases hc
      · cases hc
      · simp [Call.hasCleared, Sweep.passed] at hc
      · cases hc
  | advance hi _ hstep =>
    rcases getElem?_of_set hj with ⟨rfl, rfl⟩ | ⟨-, hj⟩
    · rcases Call.hasCleared_of_step hp hstep hc with hold | hclears
      · exact hkept hi hold
      · exact ⟨_, List.mem_append_right _ List.mem_cons_self, by
          simp [Tick.removes, Tick.mover?, came?_advance hi, hclears]⟩
    · exact hkept hj hc
  | other => exact hkept hj hc

theorem Records.invalidated (hp : t.shared.store.slots.Proper) (h : Records t log v)
    (hj : t.calls[j]? = some c) (hc : c.hasInvalidated k = true) : v.calls[j]? = some c := by
  refine h.invariant (P := fun _ v ↦ v.calls[j]? = some c) hp hj ?_
  intro log u m v hu ih hs
  rcases (step_goes hu hs).call ih with ⟨-, hj⟩ | ⟨c', conduct, s, -, -, -, hstep⟩
  · exact hj
  · rw [Call.step_of_hasInvalidated hc] at hstep
    cases hstep

theorem Records.key? {i : Nat} (hp : t.shared.store.slots.Proper) (h : Records t log v)
    (hi : t.calls[i]? = some c) : ∃ d, v.calls[i]? = some d ∧ d.key? = c.key? := by
  refine h.invariant (P := fun _ v ↦ ∃ d, v.calls[i]? = some d ∧ d.key? = c.key?) hp
    ⟨c, hi, rfl⟩ ?_
  rintro log u m v hu ⟨d, hd, hkey⟩ hs
  rcases (step_goes hu hs).call hd with ⟨-, hd'⟩ | ⟨d', conduct, s, -, rfl, hgo, -⟩
  · exact ⟨d, hd', hkey⟩
  · exact ⟨d', List.getElem?_set_self (List.getElem?_eq_some_iff.1 hd).1, hgo.key?.trans hkey⟩

theorem removes_before {r q : Nat} {x request : Tick} (hp : t.shared.store.slots.Proper)
    (h : Records t log v) (hr : log[r]? = some x) (hx : x.removes j k = true)
    (hq : log[q]? = some request)
    (hj : (request.before.calls[j]?.any (Call.hasInvalidated k)) = true) : r < q := by
  obtain ⟨c, hcall, hc⟩ := (Option.any_eq_true _ _).1 hj
  simp only [Tick.removes, Bool.and_eq_true, decide_eq_true_eq, Option.any_eq_true] at hx
  obtain ⟨hmover, d, hcame, hclears⟩ := hx
  have hended (hd : x.before.calls[j]? = some c) : False := by
    obtain rfl : d = c := by
      simp only [Tick.came?, hmover, Option.bind_some] at hcame
      exact Option.some.inj (hcame.symm.trans hd)
    rw [Call.clears_of_hasInvalidated hc] at hclears
    cases hclears
  rcases Nat.lt_trichotomy r q with hlt | rfl | hlt
  · exact hlt
  · rw [hr] at hq
    cases hq
    exact (hended hcall).elim
  · obtain ⟨hbefore, hs, -⟩ := h.at hq
    obtain ⟨_, -, hbetween⟩ := h.between hq hr hlt
    exact (hended ((Records.cons hs hbetween).invalidated (hbefore.proper hp) hcall hc)).elim

theorem Records.key?_of_requests {q : Nat} {request : Tick} (hp : t.shared.store.slots.Proper)
    (h : Records t log v) (hq : log[q]? = some request) (hrequest : request.requests k = true)
    (hcall : v.calls[request.before.calls.length]? = some c) : c.key? = some k := by
  obtain ⟨hbefore, hs, hafter⟩ := h.at hq
  have hpb := hbefore.proper hp
  have hpa := ((step_goes hpb hs).grows hpb).proper
  obtain ⟨start, hmove, hstart⟩ : ∃ start, request.move = .start start ∧
      start.call.key? = some k := by
    unfold Tick.requests at hrequest
    split at hrequest
    · rename_i start hmove
      exact ⟨start, hmove, of_decide_eq_true hrequest⟩
    · cases hrequest
  rw [hmove] at hs
  have hmade : request.after.calls[request.before.calls.length]? = some start.call := by
    rw [← Option.some.inj hs]
    simp
  obtain ⟨d, hd, hkey⟩ := hafter.key? hpa hmade
  obtain rfl : c = d := Option.some.inj (hcall.symm.trans hd)
  exact hkey.trans hstart

/-- What a call for `k` is given is read since `k` was taken out, if the call was not there then. -/
theorem Records.readBy_of_removes {r i : Nat} {x : Tick} {chunk : ChunkRef} (ht : t.Initial)
    (h : Records t log v) (hr : log[r]? = some x) (hx : x.removes j k = true)
    (hi : v.calls[i]? = some c) (hle : x.after.calls.length ≤ i) (hkey : c.key? = some k)
    (hc : c.given? = some chunk) : ∃ l n m, ReadBy log l chunk (r + 1 + n) (r + 1 + m) := by
  obtain ⟨hbefore, hs, hafter⟩ := h.at hr
  have hp := hbefore.proper ht.proper
  have hgo := step_goes hp hs
  have hflights := goes_flights hp (hbefore.flights ht) hgo
  have hfresh : Fresh k x.after.shared.store.results.size x.after.calls.length
      (log.drop (r + 1)) v :=
    hafter.invariant (P := Fresh k _ _) (hgo.grows hp).proper
      (fresh_of_free hflights (free_of_removes hp hs hx))
      fun _ _ _ _ hp ih hs ↦ goes_fresh hp ih (step_goes hp hs)
  obtain ⟨l, n, m, hread⟩ := (hfresh.fresh i c hle hi hkey).given hc
  exact ⟨l, n, m, hread.of_drop⟩

/-- Once an invalidation of `k` has returned, no request for `k` that begins then is given a chunk
of which the physical read had started before the invalidation took `k` out of its shard. The
request is the move `q` of the run, its call is known by the number of calls before it, and `j` is
the call that invalidated `k`. -/
theorem no_stale_chunk (ht : t.Initial) (h : Records t log v) {q : Nat} {request : Tick}
    {chunk : ChunkRef} (hq : log[q]? = some request) (hrequest : request.requests k = true)
    (hj : request.before.calls[j]?.any (Call.hasInvalidated k) = true)
    (hgiven : v.calls[request.before.calls.length]?.bind Call.given? = some chunk) :
    (∃ x ∈ log, x.removes j k = true) ∧ (∃ i n m, ReadBy log i chunk n m) ∧
      ∀ r x i n m, log[r]? = some x → x.removes j k = true → ReadBy log i chunk n m → r < n := by
  have hbefore := (h.at hq).1
  have hremoved : ∃ x ∈ log, x.removes j k = true := by
    obtain ⟨c, hcall, hc⟩ := (Option.any_eq_true _ _).1 hj
    obtain ⟨x, hx, hremoves⟩ := hbefore.removed ht.proper ht.calls j c hcall
      (Call.hasCleared_of_hasInvalidated (hbefore.proper ht.proper) hc)
    exact ⟨x, List.mem_of_mem_take hx, hremoves⟩
  obtain ⟨c, hcall, hc⟩ := Option.bind_eq_some_iff.1 hgiven
  have hkey := h.key?_of_requests ht.proper hq hrequest hcall
  -- What is read is read since any move that took the key out.
  have hsince {r : Nat} {x : Tick} (hr : log[r]? = some x) (hx : x.removes j k = true) :
      ∃ i n m, ReadBy log i chunk (r + 1 + n) (r + 1 + m) := by
    obtain ⟨hpast, hs, -⟩ := h.at hr
    have hp := hpast.proper ht.proper
    obtain ⟨_, -, hbetween⟩ := h.between hr hq (removes_before ht.proper h hr hx hq hj)
    have hle := hbetween.calls_length ((step_goes hp hs).grows hp).proper
    exact h.readBy_of_removes ht hr hx hcall hle hkey hc
  refine ⟨hremoved, ?_, fun r x i n m hr hx hread ↦ ?_⟩
  · obtain ⟨x, hx, hremoves⟩ := hremoved
    obtain ⟨r, hr⟩ := List.mem_iff_getElem?.1 hx
    obtain ⟨i, n, m, hread⟩ := hsince hr hremoves
    exact ⟨i, _, _, hread⟩
  · obtain ⟨i', n', m', hread'⟩ := hsince hr hx
    have he := ReadBy.unique ht.proper h hread hread'
    omega

/-- The first load of a key is invalidated, with the move 5, while it reads. It brings the chunk 0,
but only after a request has begun, with the move 6, that brings the chunk 1 and is given it. -/
theorem no_stale_chunk_past_invalidation :
    ∃ (t v : Traffic) (log : List Tick), t.Initial ∧ t.Records log v ∧
      v.calls[2]?.bind Call.given? = some 1 ∧ (∃ i n m, ReadBy log i 1 n m) ∧
      ∀ i n m, ReadBy log i 1 n m → 5 < n := by
  let k := (smallFile "a" 6).chunkId 0
  let goOn (i n : Nat) : List Move := List.replicate n (.advance i (.ofReader (smallFile "a" 6) 0))
  let moves : List Move := loadSmall 0 "a" 6 3 ++
    alone 1 (.invalidate k) (.ofReader (smallFile "a" 6) 0) 1 ++ loadSmall 2 "a" 6 3 ++
    goOn 0 1 ++ goOn 2 5
  obtain ⟨t, v, log, ht, hrec, hremoved, hasked, hgiven⟩ :=
    exists_of_record tight ChunkId.hash moves
      (fun log v ↦ log[5]?.any (·.removes 1 k) ∧ log[6]?.any (fun x ↦ x.requests k ∧
          x.before.calls[1]?.any (Call.hasInvalidated k) ∧ x.before.calls.length = 2) ∧
        v.calls[2]?.bind Call.given? = some 1) (by decide +kernel)
  obtain ⟨x, hx, hremoves⟩ := (Option.any_eq_true _ _).1 hremoved
  obtain ⟨request, hq, hrequest⟩ := (Option.any_eq_true _ _).1 hasked
  obtain ⟨hrequest, hj, hlen⟩ := of_decide_eq_true hrequest
  have hgiven' : v.calls[request.before.calls.length]?.bind Call.given? = some 1 := hlen ▸ hgiven
  have hfresh := no_stale_chunk ht hrec hq hrequest hj hgiven'
  exact ⟨t, v, log, ht, hrec, hgiven, hfresh.2.1, fun i n m ↦ hfresh.2.2 5 x i n m hx hremoves⟩

end Traffic
end ReadCache
