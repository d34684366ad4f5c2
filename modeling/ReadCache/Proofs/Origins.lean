import ReadCache.Proofs.Freshness

namespace ReadCache

namespace Tick

def begun? (x : Tick) : Option ChunkId :=
  match x.stages? with
  | some (k, .claim, .borrow _) => some k
  | _ => none

def loads (k : ChunkId) (c : ChunkRef) (x : Tick) : Prop :=
  x.brings c = true ∧ x.came?.bind Call.key? = some k

/-- With the move the load `p` of `k` comes to nothing. -/
def spoils (k : ChunkId) (p : Ticket) (f : Failure) (x : Tick) : Prop :=
  ∃ a, x.stages? = some (k, a, .clear p f)

def receives (i : Nat) (k : ChunkId) (p : Ticket) (x : Tick) : Prop :=
  x.mover? = some i ∧ ∃ b, x.stages? = some (k, .await p, b)

/-- With the move the call `i` for `k`, which goes past the table, comes to nothing. -/
def breaks (i : Nat) (k : ChunkId) (f : Failure) (x : Tick) : Prop :=
  x.mover? = some i ∧ ∃ asked reader a, x.came? = some (.direct asked k reader a) ∧
    x.went? = some (.direct asked k reader (.ended (.error f)))

end Tick

def begun (log : List Tick) : List ChunkId := log.filterMap Tick.begun?

def Loaded (log : List Tick) (k : ChunkId) (c : ChunkRef) : Prop := ∃ x ∈ log, x.loads k c

/-- The failure is that of a load of `k`, which the call `i` ran itself or was told of. -/
def Blamed (log : List Tick) (i : Nat) (k : ChunkId) (f : Failure) : Prop :=
  ∃ p, (∃ x ∈ log, x.mover? = some i ∧ x.spoils k p f) ∨
    ∃ g, f = .error (g.told k) ∧ (∃ x ∈ log, x.spoils k p g) ∧ ∃ y ∈ log, y.receives i k p

def Failure.OfTaking : Failure → Prop
  | error (.cacheExhausted ..) | panic => True
  | _ => False

def Stage.Origin (log : List Tick) (i : Nat) (k : ChunkId) : Stage → Prop
  | await p | borrow p | read p _ => (begun log)[p]? = some k
  | settle p c _ | publish p c _ => (begun log)[p]? = some k ∧ Loaded log k c
  | replace c | evict c _ | answered (.ok c) | holding c => Loaded log k c
  | clear p f | announce p f =>
    (begun log)[p]? = some k ∧ ∃ x ∈ log, x.mover? = some i ∧ x.spoils k p f
  | answered (.error f) => f.OfTaking ∨ Blamed log i k f
  | seek | claim => True

def Call.Origin (log : List Tick) (i : Nat) : Call → Prop
  | get k _ _ stage => stage.Origin log i k
  | direct _ k _ (.ended (.ok c)) => Loaded log k c
  | direct _ k _ (.ended (.error f)) => ∃ x ∈ log, x.breaks i k f
  | _ => True

section
variable {log : List Tick} {i : Nat} {k : ChunkId} {c : ChunkRef} {f : Failure}

theorem begun_snoc (log : List Tick) (y : Tick) :
    begun (log ++ [y]) = begun log ++ y.begun?.toList := by
  rw [begun, List.filterMap_append]
  rcases hy : y.begun? with _ | k <;> simp [begun, hy]

theorem begun_of_snoc {p : Ticket} (h : (begun log)[p]? = some k) (y : Tick) :
    (begun (log ++ [y]))[p]? = some k := by
  rwa [begun_snoc, List.getElem?_append_left (List.getElem?_eq_some_iff.1 h).1]

theorem exists_snoc {P : Tick → Prop} (h : ∃ x ∈ log, P x) (y : Tick) : ∃ x ∈ log ++ [y], P x := by
  obtain ⟨x, hx, hP⟩ := h
  exact ⟨x, List.mem_append_left _ hx, hP⟩

theorem exists_here {P : Tick → Prop} {y : Tick} (h : P y) : ∃ x ∈ log ++ [y], P x :=
  ⟨y, List.mem_append_right _ List.mem_cons_self, h⟩

theorem Blamed.snoc (h : Blamed log i k f) (y : Tick) : Blamed (log ++ [y]) i k f := by
  obtain ⟨p, hown | ⟨g, hg, hspoilt, hreceived⟩⟩ := h
  · exact ⟨p, .inl (exists_snoc hown y)⟩
  · exact ⟨p, .inr ⟨g, hg, exists_snoc hspoilt y, exists_snoc hreceived y⟩⟩

theorem Call.Origin.snoc {x : Call} (h : x.Origin log i) (y : Tick) :
    x.Origin (log ++ [y]) i := by
  cases x with
  | get k reader goal stage =>
    cases stage with
    | await | borrow | read => exact begun_of_snoc h y
    | settle | publish => exact ⟨begun_of_snoc h.1 y, exists_snoc h.2 y⟩
    | clear | announce => exact ⟨begun_of_snoc h.1 y, exists_snoc h.2 y⟩
    | replace | evict | holding => exact exists_snoc h y
    | answered answer =>
      cases answer with
      | ok c => exact exists_snoc h y
      | error f => exact h.imp_right (Blamed.snoc · y)
    | seek | claim => trivial
  | direct asked k reader stage =>
    cases stage with
    | ended answer =>
      cases answer with
      | ok c | error f => exact exists_snoc h y
    | _ => trivial
  | _ => trivial

theorem Call.loaded_of_tells {x : Call} {p : Ticket} (h : x.Origin log i)
    (hx : x.tells? = some (p, .ok c)) : ∃ k, (begun log)[p]? = some k ∧ Loaded log k c := by
  cases x with
  | get k reader goal stage =>
    cases stage with
    | publish =>
      cases hx
      exact ⟨k, h⟩
    | _ => cases hx
  | _ => cases hx

theorem Call.spoilt_of_tells {x : Call} {p : Ticket} {e : Error} (h : x.Origin log i)
    (hx : x.tells? = some (p, .error e)) :
    ∃ k f, (begun log)[p]? = some k ∧ f.told k = e ∧ ∃ y ∈ log, y.spoils k p f := by
  cases x with
  | get k reader goal stage =>
    cases stage with
    | announce p f =>
      cases hx
      obtain ⟨hk, y, hy, -, hspoils⟩ := h
      exact ⟨k, f, hk, rfl, y, hy, hspoils⟩
    | _ => cases hx
  | _ => cases hx

end

theorem Memory.eq_panic_of_reference {m m' : Memory} {c : ChunkRef} {f : Failure}
    (h : m.reference c = (.error f, m')) : f = .panic := by
  simp only [Memory.reference] at h
  split at h
  · cases h
  · have hf := congrArg Prod.fst h
    simp only [Chunk.reference] at hf
    split at hf
    · cases hf
    · split at hf <;> cases hf
      rfl

theorem Call.ofTaking_of_step {conduct : Conduct} {k k' asked : ChunkId} {reader reader' left : Nat}
    {attempts : UInt32} {c : ChunkRef} {goal : Goal} {f : Failure} {s s' : Shared}
    (h : step conduct s (get k reader (.handle asked attempts left) (.answered (.ok c))) =
      some (get k' reader' goal (.answered (.error f)), s')) : f.OfTaking := by
  cases steps h with
  | stage hq => cases hq
  | exhaust => trivial
  | overflow hr =>
    rw [Memory.eq_panic_of_reference (Prod.ext hr rfl)]
    trivial

theorem Start.origin (c : Start) (log : List Tick) (i : Nat) : c.call.Origin log i := by
  cases c with
  | rebuffer a reader position =>
    simp only [call, Call.rebuffer]
    split
    · split
      · exact .inl trivial
      · trivial
    · trivial
  | _ => trivial

namespace Traffic
variable {t u v : Traffic} {log : List Tick} {m : Move}

/-- A ticket is for one key, so a call is given a chunk that was loaded for its key, or told the
error of such a load. Which reader the load was made with is not said by the key. -/
structure Origins (log : List Tick) (u : Traffic) : Prop where
  begun : (begun log).length = u.shared.store.results.size
  loading : ∀ k p, u.shared.store.occupant? k = some (.loading p) → (ReadCache.begun log)[p]? = some k
  resident : ∀ k c w, u.shared.store.occupant? k = some (.resident c w) → Loaded log k c
  given : ∀ p c, u.shared.store.result? p = some (.ok c) →
    ∃ k, (ReadCache.begun log)[p]? = some k ∧ Loaded log k c
  told : ∀ p e, u.shared.store.result? p = some (.error e) →
    ∃ k f, (ReadCache.begun log)[p]? = some k ∧ f.told k = e ∧ ∃ x ∈ log, x.spoils k p f
  calls : ∀ (i : Nat) (c : Call), u.calls[i]? = some c → c.Origin log i

theorem origins_of_initial (h : t.Initial) : Origins [] t where
  begun := by rw [h.results]; rfl
  loading k p hk := by
    rw [h.occupant?] at hk
    cases hk
  resident k c w hk := by
    rw [h.occupant?] at hk
    cases hk
  given p c hr := by simp [Store.result?, h.results] at hr
  told p e hr := by simp [Store.result?, h.results] at hr
  calls i c hi := by simp [h.calls] at hi

theorem begun_of_goes (hs : t.Goes m u) :
    ((⟨t, m, u⟩ : Tick).begun? = none ∧
      u.shared.store.results.size = t.shared.store.results.size) ∨
    ∃ k, (⟨t, m, u⟩ : Tick).begun? = some k ∧
      u.shared.store.results.size = t.shared.store.results.size + 1 := by
  cases hs with
  | start c => exact .inl ⟨rfl, rfl⟩
  | @advance i conduct c c' s hi hgo =>
    cases hgo with
    | @stage k reader goal a b s hgo =>
      rw [Tick.begun?, stages?_advance hi]
      cases hgo with
      | begin _ h => exact .inr ⟨k, rfl, by rw [h.store.results, Array.size_push]⟩
      | hit hx _ h | join hx _ h =>
        refine .inl ⟨?_, by rw [h.store.results]⟩
        rcases hx with rfl | rfl <;> rfl
      | miss _ h | borrow h | refuse h | arrive h _ | fail h | settle _ h | replace h | clear h =>
        exact .inl ⟨rfl, by rw [h.store.results]⟩
      | publish h | announce h =>
        exact .inl ⟨rfl, by rw [h.store.results, Array.size_setIfInBounds]⟩
      | pass h => exact .inl ⟨rfl, by rw [h.frees.store.results]⟩
      | receive | lose | leave => exact .inl ⟨rfl, rfl⟩
    | take h => exact .inl ⟨by rw [Tick.begun?, stages?_advance hi], by rw [h.store.results]⟩
    | retry | refuse => exact .inl ⟨by rw [Tick.begun?, stages?_advance hi], rfl⟩
    | direct h =>
      refine .inl ⟨by simp only [Tick.begun?, Tick.stages?, came?_advance hi], ?_⟩
      cases h with
      | borrow h | refuse h | arrive h | fail h => rw [h.store.results]
    | invalidate h | sweep h | evict h =>
      exact .inl ⟨by simp only [Tick.begun?, Tick.stages?, came?_advance hi],
        by rw [h.frees.store.results]⟩
  | other store _ _ _ _ hm =>
    refine .inl ⟨?_, by rw [store.results]⟩
    simp only [Tick.begun?, Tick.stages?, came?_other hm]

theorem origin_of_stage {i : Nat} {conduct : Conduct} {k : ChunkId} {reader : Nat} {goal : Goal}
    {a b : Stage} {s : Shared} (h : Origins log t) (hi : t.calls[i]? = some (.get k reader goal a))
    (hgo : Stage.Goes k t.shared a b s) (ha : a.Origin log i k) :
    b.Origin (log ++ [⟨t, .advance i conduct, ⟨s, t.calls.set i (.get k reader goal b)⟩⟩]) i k := by
  let x : Tick := ⟨t, .advance i conduct, ⟨s, t.calls.set i (.get k reader goal b)⟩⟩
  have hstages : x.stages? = some (k, a, b) := stages?_advance hi
  have hmover : x.mover? = some i := rfl
  cases hgo with
  | hit _ hk _ => exact exists_snoc (h.resident _ _ _ hk) x
  | join _ hk _ => exact begun_of_snoc (h.loading _ _ hk) x
  | miss => trivial
  | begin =>
    have hbegun : x.begun? = some k := by rw [Tick.begun?, hstages]
    rw [Stage.Origin, begun_snoc, hbegun, ← h.begun]
    exact List.getElem?_concat_length
  | @receive p r hr =>
    cases r with
    | ok c =>
      obtain ⟨k', hk', hloaded⟩ := h.given p c hr
      obtain rfl : k' = k := Option.some.inj (hk'.symm.trans ha)
      exact exists_snoc hloaded x
    | error e =>
      obtain ⟨k', f, hk', rfl, hspoilt⟩ := h.told p e hr
      obtain rfl : k' = k := Option.some.inj (hk'.symm.trans ha)
      exact .inr ⟨p, .inr ⟨f, rfl, exists_snoc hspoilt x, exists_here ⟨hmover, _, hstages⟩⟩⟩
  | borrow => exact begun_of_snoc ha x
  | refuse | fail => exact ⟨begun_of_snoc ha x, exists_here ⟨hmover, _, hstages⟩⟩
  | arrive hturns =>
    refine ⟨begun_of_snoc ha x, exists_here ⟨?_, ?_⟩⟩
    · simp [Tick.brings, hturns.size]
    · rw [came?_advance hi]
      rfl
  | settle | lose => exact ⟨begun_of_snoc ha.1 x, exists_snoc ha.2 x⟩
  | @publish p c settled s' _ =>
    cases settled
    · exact exists_snoc ha.2 x
    · exact exists_snoc ha.2 x
  | replace | leave | pass => exact exists_snoc ha x
  | clear => exact ⟨begun_of_snoc ha.1 x, exists_snoc ha.2 x⟩
  | @announce p f s' _ => exact .inr ⟨p, .inl (exists_snoc ha.2 x)⟩

theorem origin_of_goes {i : Nat} {conduct : Conduct} {c c' : Call} {s : Shared}
    (h : Origins log t) (hi : t.calls[i]? = some c) (hgo : c.Goes t.shared c' s)
    (hs : c.step conduct t.shared = some (c', s)) :
    c'.Origin (log ++ [⟨t, .advance i conduct, ⟨s, t.calls.set i c'⟩⟩]) i := by
  have hc := h.calls i c hi
  cases hgo with
  | stage hgo => exact origin_of_stage h hi hgo hc
  | take => exact exists_snoc hc _
  | retry => trivial
  | refuse => exact .inl (Call.ofTaking_of_step hs)
  | direct hgo =>
    cases hgo with
    | arrive hturns =>
      refine exists_here ⟨?_, ?_⟩
      · simp [Tick.brings, hturns.size]
      · rw [came?_advance hi]
        rfl
    | refuse | fail => exact exists_here ⟨rfl, _, _, _, came?_advance hi, went?_advance hi⟩
    | borrow => trivial
  | _ => trivial

theorem goes_origins (hp : t.shared.store.slots.Proper) (h : Origins log t) (hs : t.Goes m u) :
    Origins (log ++ [⟨t, m, u⟩]) u := by
  have hbegun : (ReadCache.begun (log ++ [⟨t, m, u⟩])).length = u.shared.store.results.size := by
    rw [begun_snoc, List.length_append, h.begun]
    rcases begun_of_goes hs with ⟨hx, hsize⟩ | ⟨k, hx, hsize⟩ <;> rw [hx, hsize] <;> rfl
  have hgiven {p : Ticket} {c : ChunkRef}
      (hold : ∃ k, (ReadCache.begun log)[p]? = some k ∧ Loaded log k c) (y : Tick) :
      ∃ k, (ReadCache.begun (log ++ [y]))[p]? = some k ∧ Loaded (log ++ [y]) k c := by
    obtain ⟨k, hk, hloaded⟩ := hold
    exact ⟨k, begun_of_snoc hk y, exists_snoc hloaded y⟩
  have htold {p : Ticket} {e : Error} (hold : ∃ k f, (ReadCache.begun log)[p]? = some k ∧
      f.told k = e ∧ ∃ x ∈ log, x.spoils k p f) (y : Tick) :
      ∃ k f, (ReadCache.begun (log ++ [y]))[p]? = some k ∧ f.told k = e ∧
        ∃ x ∈ log ++ [y], x.spoils k p f := by
    obtain ⟨k, f, hk, he, hspoilt⟩ := hold
    exact ⟨k, f, begun_of_snoc hk y, he, exists_snoc hspoilt y⟩
  cases hs with
  | start c =>
    refine ⟨hbegun, fun k p hk ↦ begun_of_snoc (h.loading k p hk) _,
      fun k d w hk ↦ exists_snoc (h.resident k d w hk) _, fun p d hr ↦ hgiven (h.given p d hr) _,
      fun p e hr ↦ htold (h.told p e hr) _, fun j x hj ↦ ?_⟩
    rcases getElem?_of_snoc hj with hj | ⟨-, rfl⟩
    · exact (h.calls j x hj).snoc _
    · exact c.origin _ j
  | @advance i conduct c c' s hi hgo hstep =>
    have heffect := hgo.effect hp
    have hc := h.calls i c hi
    refine ⟨hbegun, fun k p hk ↦ ?_, fun k d w hk ↦ ?_, fun p d hr ↦ ?_, fun p e hr ↦ ?_,
      fun j x hj ↦ ?_⟩
    · rcases heffect.loading hk with hold | ⟨⟨reader, goal, rfl, rfl⟩, rfl⟩
      · exact begun_of_snoc (h.loading k p hold) _
      · have hx := origin_of_goes h hi hgo hstep
        exact hx
    · rcases heffect.resident hk with hold | ⟨reader, goal, q, rfl, -, -⟩
      · exact exists_snoc (h.resident k d w hold) _
      · exact exists_snoc hc.2 _
    · rcases heffect.result hr with hold | htells
      · exact hgiven (h.given p d hold) _
      · obtain ⟨k, hk⟩ := Call.loaded_of_tells hc htells
        exact hgiven ⟨k, hk⟩ _
    · rcases heffect.result hr with hold | htells
      · exact htold (h.told p e hold) _
      · obtain ⟨k, f, hk⟩ := Call.spoilt_of_tells hc htells
        exact htold ⟨k, f, hk⟩ _
    · rcases getElem?_of_set hj with ⟨rfl, rfl⟩ | ⟨-, hj⟩
      · exact origin_of_goes h hi hgo hstep
      · exact (h.calls j x hj).snoc _
  | other store =>
    refine ⟨hbegun, fun k p hk ↦ begun_of_snoc (h.loading k p (store.occupants ▸ hk)) _,
      fun k d w hk ↦ exists_snoc (h.resident k d w (store.occupants ▸ hk)) _,
      fun p d hr ↦ hgiven (h.given p d (Store.result?_of_results store.results ▸ hr)) _,
      fun p e hr ↦ htold (h.told p e (Store.result?_of_results store.results ▸ hr)) _,
      fun j x hj ↦ (h.calls j x hj).snoc _⟩

/-- Whatever the order of the steps, what a call has was loaded for its key. -/
theorem Records.origins (ht : t.Initial) (h : Records t log v) : Origins log v :=
  h.invariant (P := Origins) ht.proper (origins_of_initial ht)
    fun _ _ _ _ hp ih hs ↦ goes_origins hp ih (step_goes hp hs)

theorem Records.brings_once {x y : Tick} {c : ChunkRef} (hp : t.shared.store.slots.Proper)
    (h : Records t log v) (hx : x ∈ log) (hy : y ∈ log) (hc : x.brings c = true)
    (hc' : y.brings c = true) : x = y := by
  simp only [Tick.brings, Bool.and_eq_true, decide_eq_true_eq] at hc hc'
  obtain ⟨n, hn⟩ := List.mem_iff_getElem?.1 hx
  obtain ⟨m, hm⟩ := List.mem_iff_getElem?.1 hy
  rcases Nat.lt_trichotomy n m with hlt | rfl | hlt
  · have hle := h.chunks_le hp hn hm hlt
    omega
  · exact Option.some.inj (hn.symm.trans hm)
  · have hle := h.chunks_le hp hm hn hlt
    omega

/-- No two residents share a chunk, however many handles there are. -/
theorem Records.kept (ht : t.Initial) (h : Records t log v) : v.shared.engine.Kept := by
  have hproper := h.proper ht.proper
  have hloaded {w : ChunkId × Resident} (hw : w ∈ v.shared.store.residents) :
      Loaded log w.1 w.2.chunk := by
    have hslot := (Store.mem_residents hproper).1 hw
    exact (h.origins ht).resident w.1 _ w.2.weight (Store.occupant?_of_resident hslot)
  constructor
  case own =>
    have hkeys := Store.nodup_keys_residents hproper
    refine List.Nodup.map_on (fun w hw w' hw' hc ↦ ?_) hkeys.of_map
    obtain ⟨x, hx, hbrings, hkey⟩ := hloaded hw
    obtain ⟨y, hy, hbrings', hkey'⟩ := hloaded hw'
    rw [← hc] at hbrings'
    obtain rfl := h.brings_once ht.proper hx hy hbrings hbrings'
    have hsame : w.1 = w'.1 := Option.some.inj (hkey.symm.trans hkey')
    exact List.inj_on_of_nodup_map hkeys hw hw' hsame
  case known =>
    intro w hw
    obtain ⟨x, hx, hbrings, -⟩ := hloaded hw
    simp only [Tick.brings, Bool.and_eq_true, decide_eq_true_eq] at hbrings
    obtain ⟨n, hn⟩ := List.mem_iff_getElem?.1 hx
    obtain ⟨hbefore, hs, hafter⟩ := h.at hn
    have hgrows := (step_goes (hbefore.proper ht.proper) hs).grows (hbefore.proper ht.proper)
    have hle := (hafter.grows hgrows.proper).chunks
    rw [hbrings.2] at hle
    exact hle

end Traffic
end ReadCache
