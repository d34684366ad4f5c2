import ReadCache.Proofs.Freshness
import ReadCache.Proofs.Hiding

namespace ReadCache

namespace Call

def replaces (c : ChunkRef) : Call → Bool
  | get _ _ _ (.replace d) => d = c
  | _ => false

def again (k : ChunkId) (reader : Nat) (asked : ChunkId) (attempts : UInt32) : Nat → Call
  | 0 => get k reader (.handle asked attempts 0)
      (.answered (.error (.error (.cacheExhausted k.text attempts))))
  | left + 1 => get k reader (.handle asked attempts left) .seek

variable {s s' : Shared} {x' : Call} {c : ChunkRef}

theorem Goes.of_publish {k : ChunkId} {reader : Nat} {goal : Goal} {p : Ticket}
    (h : Goes s (get k reader goal (.publish p c false)) x' s') :
    x' = get k reader goal (.replace c) ∧
      s.Turns s' s.store.occupant? (s.store.results.setIfInBounds p (some (.ok c))) 0 [] [] := by
  cases h with
  | stage h =>
    cases h with
    | hit hx _ _ | join hx _ _ => rcases hx with he | he <;> cases he
    | publish h => exact ⟨rfl, h⟩

theorem again_empty (k : ChunkId) (reader : Nat) (asked : ChunkId) (attempts : UInt32)
    (left : Nat) : (again k reader asked attempts left).mentions? = none ∧
      (again k reader asked attempts left).awaits? = none := by
  cases left <;> exact ⟨rfl, rfl⟩

section
variable {k asked : ChunkId} {reader left : Nat} {attempts : UInt32} {chunk : Chunk}

theorem takeHandle_of_zero (hc : s.memory.chunk? c = some chunk) (hz : chunk.references = 0) :
    takeHandle k reader asked attempts left c s = (again k reader asked attempts left, s) := by
  cases left <;> simp [takeHandle, again, Memory.reference, hc, Chunk.reference, hz]

theorem takeHandle_of_one (hc : s.memory.chunk? c = some chunk) (hone : chunk.references = 1) :
    ⟨c, some asked⟩ ∈ (takeHandle k reader asked attempts left c s).2.handles := by
  simp [takeHandle, Memory.reference, hc, Chunk.reference, hone, Shared.addHandle, UInt32.size]

end

end Call

namespace Traffic
variable {t u v : Traffic} {log : List Tick} {m : Move} {c : ChunkRef} {i j : Nat} {k : ChunkId}

structure Settled (u : Traffic) (c : ChunkRef) : Prop where
  brought : ∀ (j : Nat) (d : Call), u.calls[j]? = some d → d.brings? ≠ some c
  resident : ∀ k w, u.shared.store.occupant? k ≠ some (.resident c w)

/-- The lost load that the call `i` runs has still to be told of, or its reference has still to be
given up and nobody has a handle, or there is no reference any more. -/
inductive Leaving (u : Traffic) (i : Nat) (k : ChunkId) (c : ChunkRef) : Prop where
  | untold {reader : Nat} {goal : Goal} {p : Ticket}
      (hi : u.calls[i]? = some (.get k reader goal (.publish p c false)))
  | told {reader : Nat} {goal : Goal} (hi : u.calls[i]? = some (.get k reader goal (.replace c)))
      (hnone : ∀ h ∈ u.shared.handles, h.chunk ≠ c) (sole : u.Sole c)
      (held : ∀ (j : Nat) (d : Call), u.calls[j]? = some d → c ∈ d.held → i = j)
      (settled : u.Settled c)
  | gone {chunk : Chunk} (hc : u.shared.memory.chunk? c = some chunk)
      (hz : chunk.references = 0) (hnone : ∀ h ∈ u.shared.handles, h.chunk ≠ c)
      (settled : u.Settled c)

theorem Leaving.unused (h : u.Leaving i k c) (hd : Discreet log u) : u.handlesOn c = 0 := by
  refine handlesOn_eq_zero.2 ?_
  cases h with
  | untold hi => exact (hd.hidden i _ c hi rfl).1.handled
  | told _ hnone => exact hnone
  | gone _ _ hnone => exact hnone

theorem Settled.not_discloses (h : t.Settled c) : ¬ t.Discloses u c :=
  fun ⟨j, x, _, hj, hx, _⟩ ↦ h.brought j x hj hx

theorem goes_settled (hp : t.shared.store.slots.Proper) (h : t.Settled c)
    (hlt : c < t.shared.memory.chunks.size) (hs : t.Goes m u) : u.Settled c := by
  refine ⟨fun j d hj hd ↦ ?_, fun k w hk ↦ ?_⟩
  · rcases hs.came hj with ⟨-, hj⟩ | ⟨call, rfl⟩ | ⟨x, conduct, -, hj, hgo⟩
    · exact h.brought j d hj hd
    · have hmentions := Call.mentions_of_brings hd
      rw [(start_empty call).1] at hmentions
      cases hmentions
    · rcases hgo.brings hd with hx | hnew
      · exact h.brought j x hj hx
      · exact Nat.lt_irrefl _ (hnew.eq ▸ hlt)
  · exact (hs.resident hp hk).elim (h.resident k w) h.not_discloses

theorem told_of_publish {reader : Nat} {goal : Goal} {p : Ticket} {s : Shared}
    (hi : t.calls[i]? = some (.get k reader goal (.publish p c false))) (h : t.Hidden i c)
    (hsole : t.Sole c)
    (hs : t.shared.Turns s t.shared.store.occupant?
      (t.shared.store.results.setIfInBounds p (some (.ok c))) 0 [] []) :
    Leaving ⟨s, t.calls.set i (.get k reader goal (.replace c))⟩ i k c := by
  have hlt := (List.getElem?_eq_some_iff.1 hi).1
  obtain ⟨chunk, hc, hone⟩ := hsole
  refine .told (List.getElem?_set_self hlt) (fun handle hm ↦ ?_)
    ⟨chunk, hs.spares c chunk hc (.inl List.not_mem_nil), hone⟩ (fun j d hj hd ↦ ?_)
    ⟨fun j d hj hd ↦ ?_, fun k w ↦ hs.store.occupants ▸ h.resident k w⟩
  · rw [hs.handles, List.append_nil] at hm
    exact h.handled handle hm
  · rcases getElem?_of_set hj with ⟨rfl, -⟩ | ⟨-, hj⟩
    · rfl
    · exact h.held j d hj hd
  · rcases getElem?_of_set hj with ⟨rfl, rfl⟩ | ⟨hne, hj⟩
    · cases hd
    · exact hne (h.mentioned j d hj (Call.mentions_of_brings hd)).1

theorem gone_of_replace {reader : Nat} {goal : Goal} {conduct : Conduct} {x' : Call} {s : Shared}
    (hnone : ∀ h ∈ t.shared.handles, h.chunk ≠ c) (hsole : t.Sole c)
    (hs : (Call.get k reader goal (.replace c)).step conduct t.shared = some (x', s)) :
    (∃ chunk, s.memory.chunk? c = some chunk ∧ chunk.references = 0) ∧
      ∀ h ∈ s.handles, h.chunk ≠ c := by
  obtain ⟨chunk, hc, hone⟩ := hsole
  cases Call.steps hs with
  | stage hq =>
    cases Stage.steps hq with
    | replace =>
      refine ⟨⟨chunk.unreference.2, ?_, ?_⟩, hnone⟩
      · exact (Memory.chunk?_unreference hc c).trans (if_pos rfl)
      · simp [Chunk.unreference, hone]

theorem step_leaving (hp : t.shared.store.slots.Proper) (hd : Discreet log t)
    (h : t.Leaving i k c) (hs : t.step m = some u)
    (hwindow : u.calls[i]?.any (Call.replaces c) = true → u.handlesOn c = 0) :
    u.Leaving i k c := by
  have hgo := step_goes hp hs
  -- The load tells of the chunk, then gives up its reference, and nobody comes in between.
  cases h with
  | untold hi =>
    rcases hgo.call hi with ⟨-, hi'⟩ | ⟨x', conduct, s, rfl, rfl, hx, -⟩
    · exact .untold hi'
    · obtain ⟨rfl, hturns⟩ := hx.of_publish
      exact told_of_publish hi (hd.hidden i _ c hi rfl).1 (hd.sole i _ c hi rfl) hturns
  | told hi hnone sole held settled =>
    have hsettled := goes_settled hp settled sole.lt hgo
    rcases hgo.call hi with ⟨hmover, hi'⟩ | ⟨x', conduct, s, rfl, rfl, -, hstep⟩
    · have hunused := handlesOn_eq_zero.1 (hwindow (by simp [hi', Call.replaces]))
      have hheld' := goes_held held settled.resident hgo (.inl sole.lt)
      have hfree := not_held_of_mover held hmover
      obtain ⟨chunk, hc, hone⟩ := sole
      rcases hgo.spares hp hc hnone (.inl hfree) with ⟨hc', -⟩ | ⟨-, handle, hm, he⟩
      · exact .told hi' hunused ⟨chunk, hc', hone⟩ hheld' hsettled
      · exact (hunused handle hm he).elim
    · obtain ⟨⟨chunk, hc, hz⟩, hnone'⟩ := gone_of_replace hnone sole hstep
      exact .gone hc hz hnone' hsettled
  | gone hc hz hnone settled =>
    rcases hgo.spares hp hc hnone (.inr hz) with ⟨hc', hnone'⟩ | ⟨hne, -⟩
    · exact .gone hc' hz hnone' (goes_settled hp settled (Memory.lt_of_chunk? hc) hgo)
    · exact absurd hz hne

theorem Records.leaving {past : List Tick} (ht : t.Initial) (hpast : Records t past u)
    (h : Records u log v) (hinformed : ∀ x ∈ past ++ log, x.move.Informed x.before)
    (hu : u.Leaving i k c)
    (hwindow : ∀ x ∈ log, x.after.calls[i]?.any (Call.replaces c) = true →
      x.after.handlesOn c = 0) :
    v.Leaving i k c := by
  induction h with
  | nil => exact hu
  | @snoc log w v m h hs ih =>
    have hw := hpast.append h
    rw [← List.append_assoc] at hinformed
    have hinformed' (x : Tick) (hx : x ∈ past ++ log) : x.move.Informed x.before :=
      hinformed x (List.mem_append_left _ hx)
    exact step_leaving (hw.proper ht.proper) (hw.discreet ht hinformed')
      (ih hinformed' fun x hx ↦ hwindow x (List.mem_append_left _ hx)) hs
      (hwindow _ (List.mem_append_right _ List.mem_cons_self))

structure Rid (u : Traffic) (j : Nat) (c : ChunkRef) : Prop where
  known : c < u.shared.memory.chunks.size
  settled : u.Settled c
  mentioned : ∀ d : Call, u.calls[j]? = some d → d.mentions? ≠ some c
  awaited : ∀ (d : Call) p, u.calls[j]? = some d → d.awaits? = some p →
    u.shared.store.result? p ≠ some (.ok c)

theorem goes_rid (hp : t.shared.store.slots.Proper) (hf : t.Flights) (h : t.Rid j c)
    (hs : t.Goes m u) : u.Rid j c := by
  refine ⟨h.known.trans_le (hs.grows hp).chunks, goes_settled hp h.settled h.known hs,
    fun d hj hd ↦ ?_, fun d p hj hd hr ↦ ?_⟩
  · rcases hs.mentions hj hd with ⟨x, hj, hx⟩ | ⟨k, w, hk⟩ | ⟨x, p, hj, hx, hr⟩ | ⟨hnew, -⟩
    · exact h.mentioned x hj hx
    · exact h.settled.resident k w hk
    · exact h.awaited x p hj hx hr
    · exact Nat.lt_irrefl _ (hnew.eq ▸ h.known)
  -- Nobody tells of the chunk any more, so a result that gives it was known before the move.
  · have hr := (hs.result hp hr).resolve_right h.settled.not_discloses
    rcases hs.came hj with ⟨-, hj⟩ | ⟨call, rfl⟩ | ⟨x, conduct, -, -, hgo⟩
    · exact h.awaited d p hj hd hr
    · rw [(start_idle call).2] at hd
      cases hd
    · obtain ⟨k, hk⟩ := hgo.awaits hd
      rw [(Store.pending_iff.1 (hf.pending_of_slot hk)).2] at hr
      cases hr

theorem Records.rid {past : List Tick} (ht : t.Initial) (hpast : Records t past u)
    (h : Records u log v) (hu : u.Rid j c) : v.Rid j c := by
  induction h with
  | nil => exact hu
  | snoc h hs ih =>
    have hw := hpast.append h
    have hp := hw.proper ht.proper
    exact goes_rid hp (hw.flights ht) ih (step_goes hp hs)

theorem Leaving.retries {k' asked : ChunkId} {reader left : Nat} {attempts : UInt32}
    {conduct : Conduct} (h : t.Leaving i k c) (hd : Discreet log t)
    (hj : t.calls[j]? = some (.get k' reader (.handle asked attempts left) (.answered (.ok c))))
    (hs : t.step (.advance j conduct) = some u) (hnone : u.handlesOn c = 0) :
    u.calls[j]? = some (.again k' reader asked attempts left) ∧ u.Rid j c := by
  obtain ⟨x, x', s, hx, hstep, rfl⟩ := advance_cases hs
  obtain rfl := Option.some.inj (hj.symm.trans hx)
  have hlt := (List.getElem?_eq_some_iff.1 hj).1
  have htake : Call.takeHandle k' reader asked attempts left c t.shared = (x', s) :=
    Option.some.inj hstep
  cases h with
  | untold hi =>
    have hhides := ((hd.hidden i _ c hi rfl).1.mentioned j _ hj rfl).2
    cases hhides
  | told hi _ sole _ _ =>
    obtain ⟨chunk, hc, hone⟩ := sole
    have hm : (⟨c, some asked⟩ : Handle) ∈
        (Call.takeHandle k' reader asked attempts left c t.shared).2.handles :=
      Call.takeHandle_of_one hc hone
    rw [htake] at hm
    exact (handlesOn_eq_zero.1 hnone _ hm rfl).elim
  | gone hc hz hnone' settled =>
    rw [Call.takeHandle_of_zero hc hz] at htake
    cases htake
    obtain ⟨hmentions, hawaits⟩ := Call.again_empty k' reader asked attempts left
    have hset : (t.calls.set j (.again k' reader asked attempts left))[j]? =
      some (.again k' reader asked attempts left) := List.getElem?_set_self hlt
    refine ⟨hset, Memory.lt_of_chunk? hc, ⟨fun l d hl hd ↦ ?_, settled.resident⟩,
      fun d hd he ↦ ?_, fun d p hd he ↦ ?_⟩
    · rcases getElem?_of_set hl with ⟨-, rfl⟩ | ⟨-, hl⟩
      · have hmentions' := Call.mentions_of_brings hd
        rw [hmentions] at hmentions'
        cases hmentions'
      · exact settled.brought l d hl hd
    · obtain rfl := Option.some.inj (hset.symm.trans hd)
      rw [hmentions] at he
      cases he
    · obtain rfl := Option.some.inj (hset.symm.trans hd)
      rw [hawaits] at he
      cases he

end Traffic

def Tick.settles? (x : Tick) : Option (ChunkId × Ticket × ChunkRef) :=
  match x.stages? with
  | some (k, .settle p c _, _) => some (k, p, c)
  | _ => none

namespace Traffic
variable {t u v : Traffic} {log : List Tick} {m : Move} {c : ChunkRef} {i j : Nat} {k : ChunkId}

/-- The slot of `k` is freed by the move `n` of the run while the load `p` is in it. The call `i`
runs the load, reads the chunk `c`, and looks at the slot with the later move `m`. -/
structure Lost (log : List Tick) (k : ChunkId) (p : Ticket) (i : Nat) (c : ChunkRef)
    (n m : Nat) : Prop where
  lt : n < m
  freed : ∃ x : Tick, log[n]? = some x ∧ x.before.shared.store.occupant? k = some (.loading p) ∧
    x.after.shared.store.occupant? k = none
  settles : ∃ y : Tick, log[m]? = some y ∧ y.mover? = some i ∧ y.settles? = some (k, p, c)

instance (log : List Tick) (k : ChunkId) (p : Ticket) (i : Nat) (c : ChunkRef) (n m : Nat) :
    Decidable (Lost log k p i c n m) :=
  decidable_of_iff (n < m ∧
    (log[n]?.any fun x ↦ x.before.shared.store.occupant? k = some (.loading p) ∧
      x.after.shared.store.occupant? k = none) ∧
    (log[m]?.any fun y ↦ y.mover? = some i ∧ y.settles? = some (k, p, c))) <| by
      simp only [Option.any_eq_true, decide_eq_true_eq]
      exact ⟨fun ⟨lt, freed, settles⟩ ↦ ⟨lt, freed, settles⟩, fun h ↦ ⟨h.lt, h.freed, h.settles⟩⟩

theorem Records.lost {p : Ticket} (hp : t.shared.store.slots.Proper) (h : Records t log v)
    (hlt : p < t.shared.store.results.size) (hk : t.shared.store.occupant? k ≠ some (.loading p)) :
    v.shared.store.occupant? k ≠ some (.loading p) := by
  refine (h.invariant (P := fun _ v ↦ p < v.shared.store.results.size ∧
    v.shared.store.occupant? k ≠ some (.loading p)) hp ⟨hlt, hk⟩ ?_).2
  rintro log u m v hu ⟨hlt, hk⟩ hs
  have hgo := step_goes hu hs
  refine ⟨hlt.trans_le (hgo.grows hu).results, fun hk' ↦ ?_⟩
  rcases hgo.effect hu with hstay | ⟨x, x', -, -, heffect⟩
  · exact hk (hstay.occupants ▸ hk')
  · rcases heffect.loading hk' with hold | ⟨-, rfl⟩
    · exact hk hold
    · exact Nat.lt_irrefl _ hlt

theorem Lost.gone {p : Ticket} {n l : Nat} {y : Tick} (hlost : Lost log k p i c n l)
    (ht : t.Initial) (h : Records t log v) (hl : log[l]? = some y) :
    y.before.shared.store.occupant? k ≠ some (.loading p) := by
  obtain ⟨x, hn, hslot, hfree⟩ := hlost.freed
  obtain ⟨hbefore, hs, -⟩ := h.at hn
  have hpx := hbefore.proper ht.proper
  have hgrows := (step_goes hpx hs).grows hpx
  have hlt := (Store.pending_iff.1 ((hbefore.flights ht).pending_of_slot hslot)).1
  obtain ⟨_, -, hbetween⟩ := h.between hn hl hlost.lt
  exact hbetween.lost hgrows.proper (hlt.trans_le hgrows.results) (by simp [hfree])

theorem goes_lose {p : Ticket} (hs : t.Goes m u) (hi : (⟨t, m, u⟩ : Tick).mover? = some i)
    (hx : (⟨t, m, u⟩ : Tick).settles? = some (k, p, c))
    (hk : t.shared.store.occupant? k ≠ some (.loading p)) :
    ∃ reader goal w, (⟨t, m, u⟩ : Tick).stages? = some (k, .settle p c w, .publish p c false) ∧
      u.calls[i]? = some (.get k reader goal (.publish p c false)) := by
  cases hs with
  | start => cases hi
  | @advance l conduct x x' s hl hgo _ =>
    obtain rfl : l = i := Option.some.inj hi
    simp only [Tick.settles?, Tick.stages?, came?_advance hl, went?_advance hl] at hx
    cases hgo with
    | stage h =>
      cases h with
      | hit h _ _ | join h _ _ => rcases h with rfl | rfl <;> cases hx
      | settle hk' _ =>
        cases hx
        exact absurd hk' hk
      | lose =>
        cases hx
        exact ⟨_, _, _, stages?_advance hl,
          List.getElem?_set_self (List.getElem?_eq_some_iff.1 hl).1⟩
      | _ => cases hx
    | _ => cases hx
  | other _ _ _ _ _ hm =>
    rw [mover?_other hm] at hi
    cases hi

/-- Whoever was given the chunk and comes for a handle asks again, and is not given it any more. -/
def Retried (log : List Tick) (c : ChunkRef) : Prop :=
  ∀ q x j k reader asked attempts left, log[q]? = some x → x.mover? = some j →
    x.came? = some (.get k reader (.handle asked attempts left) (.answered (.ok c))) →
    x.went? = some (.again k reader asked attempts left) ∧
      ∀ y ∈ log.drop (q + 1), y.after.calls[j]?.bind Call.given? ≠ some c

theorem Records.upto {x : Tick} (h : Records t log v) (hx : x ∈ log) :
    ∃ past ⊆ log, Records t past x.after := by
  obtain ⟨q, hq⟩ := List.mem_iff_getElem?.1 hx
  obtain ⟨hbefore, hs, -⟩ := h.at hq
  refine ⟨log.take q ++ [⟨x.before, x.move, x.after⟩], fun y hy ↦ ?_, hbefore.snoc hs⟩
  rcases List.mem_append.1 hy with hy | hy
  · exact List.mem_of_mem_take hy
  · exact List.mem_singleton.1 hy ▸ hx

theorem Lost.leaving {p : Ticket} {n l : Nat} (hlost : Lost log k p i c n l) (ht : t.Initial)
    (h : Records t log v) (hinformed : ∀ x ∈ log, x.move.Informed x.before)
    (hwindow : ∀ x ∈ log, x.after.calls[i]?.any (Call.replaces c) = true →
      x.after.handlesOn c = 0) :
    (∃ y w, log[l]? = some y ∧ y.stages? = some (k, .settle p c w, .publish p c false)) ∧
    ∀ (q : Nat) (x : Tick), log[q]? = some x → x.before.Hidden i c ∧ x.after.Hidden i c ∨
      x.before.Leaving i k c ∧ x.after.Leaving i k c := by
  obtain ⟨y, hl, hmover, hsettles⟩ := hlost.settles
  obtain ⟨hbefore, hs, -⟩ := h.at hl
  obtain ⟨reader, goal, w, hstages, hcall⟩ :=
    goes_lose (step_goes (hbefore.proper ht.proper) hs) hmover hsettles (hlost.gone ht h hl)
  have hpast : Records t (log.take l ++ [y]) y.after := hbefore.snoc hs
  have htake : log.take l ++ [y] = log.take (l + 1) := by
    rw [List.take_add_one, hl, Option.toList_some]
  rw [htake] at hpast
  have hinformed' (x : Tick) (hx : x ∈ log.take (l + 1)) : x.move.Informed x.before :=
    hinformed x (List.mem_of_mem_take hx)
  obtain ⟨-, hhidden⟩ := (hpast.discreet ht hinformed').hidden i _ c hcall rfl
  refine ⟨⟨y, w, hl, hstages⟩, fun q x hq ↦ ?_⟩
  rcases Nat.lt_or_ge l q with hlt | hge
  · obtain ⟨later, hlater, hbetween⟩ := h.between hl hq hlt
    have hmem {x : Tick} (hx : x ∈ later) : x ∈ log := List.mem_of_mem_drop (hlater hx)
    have hleaving : x.before.Leaving i k c :=
      hpast.leaving ht hbetween
        (fun x hx ↦ (List.mem_append.1 hx).elim (hinformed' x) fun hx ↦ hinformed x (hmem hx))
        (.untold hcall) fun x hx ↦ hwindow x (hmem hx)
    obtain ⟨hbefore', hs', -⟩ := h.at hq
    have hdiscreet := hbefore'.discreet ht fun x hx ↦ hinformed x (List.mem_of_mem_take hx)
    exact .inr ⟨hleaving, step_leaving (hbefore'.proper ht.proper) hdiscreet hleaving hs'
      (hwindow x (List.mem_of_getElem? hq))⟩
  · refine .inl (hhidden x (List.mem_of_getElem? (i := q) ?_))
    rw [List.getElem?_take_of_lt (Nat.lt_succ_of_le hge), hq]

/-- What a lost load brings is never used, unless somebody takes a handle on it between the moment
it is told of and the moment its reference is given up. The load does not become resident, nobody
has a handle on the chunk at any time, and whoever was given it goes back to ask for another. -/
theorem lost_chunk_unused (ht : t.Initial) (h : Records t log v)
    (hinformed : ∀ x ∈ log, x.move.Informed x.before) {p : Ticket} {n l : Nat}
    (hlost : Lost log k p i c n l)
    (hwindow : ∀ x ∈ log, x.after.calls[i]?.any (Call.replaces c) = true →
      x.after.handlesOn c = 0) :
    (∃ y w, log[l]? = some y ∧ y.stages? = some (k, .settle p c w, .publish p c false)) ∧
    (∀ x ∈ log, x.after.handlesOn c = 0) ∧ Retried log c := by
  obtain ⟨hstages, hleaving⟩ := hlost.leaving ht h hinformed hwindow
  have hunused (x : Tick) (hx : x ∈ log) : x.after.handlesOn c = 0 := by
    obtain ⟨q, hq⟩ := List.mem_iff_getElem?.1 hx
    rcases hleaving q x hq with ⟨-, hhidden⟩ | ⟨-, hafter⟩
    · exact handlesOn_eq_zero.2 hhidden.handled
    · obtain ⟨past, hpast, hx⟩ := h.upto hx
      exact hafter.unused (hx.discreet ht fun x hx ↦ hinformed x (hpast hx))
  refine ⟨hstages, hunused, fun q x j k' reader asked attempts left hq hmover hcame ↦ ?_⟩
  have hj : x.before.calls[j]? =
      some (.get k' reader (.handle asked attempts left) (.answered (.ok c))) := by
    rwa [Tick.came?, hmover, Option.bind_some] at hcame
  rcases hleaving q x hq with ⟨hhidden, -⟩ | ⟨hbefore, -⟩
  · have hhides := (hhidden.mentioned j _ hj rfl).2
    cases hhides
  · obtain ⟨hpast, hs, hafter⟩ := h.at hq
    obtain ⟨conduct, hmove⟩ := Tick.move_of_mover hmover
    obtain ⟨hagain, hrid⟩ := hbefore.retries
      (hpast.discreet ht fun x hx ↦ hinformed x (List.mem_of_mem_take hx)) hj (hmove ▸ hs)
      (hunused x (List.mem_of_getElem? hq))
    refine ⟨by rwa [Tick.went?, hmover, Option.bind_some], fun z hz hgiven ↦ ?_⟩
    obtain ⟨later, -, hz⟩ := hafter.upto hz
    obtain ⟨d, hd, hgiven⟩ := Option.bind_eq_some_iff.1 hgiven
    exact ((hpast.snoc hs).rid ht hz hrid).mentioned d hd (Call.mentions_of_given hgiven)

/-- Two calls come for a handle on the same chunk. The chunk is invalidated while the first reads it
and the second waits, and then the first tells of it. -/
def lostSmall : List Move :=
  let goOn (i n : Nat) : List Move := List.replicate n (.advance i (.ofReader (smallFile "a" 6) 0))
  let a : Access := ⟨smallFile "a" 6, .cached 3, []⟩
  .start (.rebuffer a 0 0) :: goOn 0 3 ++ .start (.rebuffer a 0 0) :: goOn 1 1 ++
    .start (.invalidate (a.chunkId 0)) :: goOn 2 1 ++ goOn 0 3

theorem lost_chunk_unused_past_release :
    ∃ (t v : Traffic) (log : List Tick), t.Initial ∧ t.Records log v ∧
      Lost log ((smallFile "a" 6).chunkId 0) 0 0 0 7 9 ∧ Retried log 0 ∧
      (∀ x ∈ log, x.after.handlesOn 0 = 0) ∧ v.handlesOn 1 = 2 ∧ v.idle = true := by
  let k := (smallFile "a" 6).chunkId 0
  let goOn (i n : Nat) : List Move := List.replicate n (.advance i (.ofReader (smallFile "a" 6) 0))
  let moves : List Move := lostSmall ++ goOn 0 1 ++ goOn 1 2 ++ goOn 0 10 ++ goOn 1 2
  obtain ⟨t, v, log, ht, hrec, hinformed, hlost, hwindow, hprops⟩ :=
    exists_of_record tight ChunkId.hash moves
      (fun log v ↦ (∀ x ∈ log, x.move.Informed x.before) ∧ Lost log k 0 0 0 7 9 ∧
        (∀ x ∈ log, x.after.calls[0]?.any (Call.replaces 0) = true → x.after.handlesOn 0 = 0) ∧
        v.handlesOn 1 = 2 ∧ v.idle = true) (by decide +kernel)
  obtain ⟨-, hunused, hretried⟩ := lost_chunk_unused ht hrec hinformed hlost hwindow
  exact ⟨t, v, log, ht, hrec, hlost, hretried, hunused, hprops⟩

/-- The second takes its handle before the reference is given up, and then so does the first. -/
theorem lost_chunk_used :
    ∃ (t v : Traffic) (log : List Tick), t.Initial ∧ t.Records log v ∧
      (∀ x ∈ log, x.move.Informed x.before) ∧ Lost log ((smallFile "a" 6).chunkId 0) 0 0 0 7 9 ∧
      log[7]?.any (Tick.removes 2 ((smallFile "a" 6).chunkId 0)) = true ∧ v.idle = true ∧
      v.handlesOn 0 = 2 ∧ v.calls[0]?.bind Call.given? = some 0 ∧
      v.calls[1]?.bind Call.given? = some 0 := by
  let goOn (i n : Nat) : List Move := List.replicate n (.advance i (.ofReader (smallFile "a" 6) 0))
  exact exists_of_record tight ChunkId.hash (lostSmall ++ goOn 1 2 ++ goOn 0 2) _
    (by decide +kernel)

end Traffic
end ReadCache
