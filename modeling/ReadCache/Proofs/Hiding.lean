import ReadCache.Proofs.SingleFlight

namespace ReadCache

/-- The chunk comes in the step. -/
structure Shared.Comes (s s' : Shared) (c : ChunkRef) : Prop where
  eq : c = s.memory.chunks.size
  size : s'.memory.chunks.size = s.memory.chunks.size + 1

namespace Call

def mentions? : Call → Option ChunkRef
  | get _ _ _ (.settle _ c _) | get _ _ _ (.publish _ c _) | get _ _ _ (.replace c)
  | get _ _ _ (.evict c _) | get _ _ _ (.answered (.ok c)) | get _ _ _ (.holding c)
  | direct _ _ _ (.ended (.ok c)) => some c
  | _ => none

/-- The chunk that the call has read and of which it has still to tell. -/
def brings? : Call → Option ChunkRef
  | get _ _ _ (.settle _ c _) | get _ _ _ (.publish _ c _) => some c
  | _ => none

def hides? : Call → Option ChunkRef
  | get _ _ _ (.settle _ c _) | get _ _ _ (.publish _ c false) => some c
  | _ => none

variable {s s' : Shared} {x x' : Call} {c : ChunkRef}

theorem mentions_of_brings (h : x.brings? = some c) : x.mentions? = some c := by
  unfold brings? at h
  split at h <;> cases h <;> rfl

theorem brings_of_hides (h : x.hides? = some c) : x.brings? = some c := by
  unfold hides? at h
  split at h <;> cases h <;> rfl

theorem brings_of_tells {p : Ticket} (h : x.tells? = some (p, .ok c)) : x.brings? = some c := by
  cases x with
  | get k reader goal stage => cases stage <;> cases h; rfl
  | _ => cases h

theorem mentions_of_given (h : x.given? = some c) : x.mentions? = some c := by
  unfold given? at h
  split at h <;> cases h <;> rfl

theorem hides_of_given (h : x.given? = some c) : x.hides? = none := by
  unfold given? at h
  split at h <;> cases h <;> rfl

/-- What a call gets in hand it had there before, or it finds it in the table, or it was waiting for
it, or it has just read it. -/
theorem Goes.mentions (h : Goes s x x' s') (hx : x'.mentions? = some c) :
    x.mentions? = some c ∨ (∃ k w, s.store.occupant? k = some (.resident c w)) ∨
      (∃ p, x.awaits? = some p ∧ s.store.result? p = some (.ok c)) ∨ s.Comes s' c := by
  cases h with
  | stage h =>
    cases h with
    | hit _ hk _ =>
      cases hx
      exact .inr (.inl ⟨_, _, hk⟩)
    | @receive p r hr =>
      cases r with
      | ok d =>
        cases hx
        exact .inr (.inr (.inl ⟨p, rfl, hr⟩))
      | error e => cases hx
    | arrive h =>
      cases hx
      exact .inr (.inr (.inr ⟨rfl, h.size⟩))
    | settle | lose | replace | leave | pass => exact .inl hx
    | @publish p d settled s' _ => cases settled <;> exact .inl hx
    | _ => cases hx
  | take => exact .inl hx
  | direct h =>
    cases h with
    | arrive h =>
      cases hx
      exact .inr (.inr (.inr ⟨rfl, h.size⟩))
    | _ => cases hx
  | _ => cases hx

theorem Goes.brings (h : Goes s x x' s') (hx : x'.brings? = some c) :
    x.brings? = some c ∨ s.Comes s' c := by
  cases h with
  | stage h =>
    cases h with
    | arrive h =>
      cases hx
      exact .inr ⟨rfl, h.size⟩
    | settle | lose => exact .inl hx
    | @publish p d settled s' _ => cases settled <;> cases hx
    | _ => cases hx
  | _ => cases hx

theorem Goes.hides (h : Goes s x x' s') (hx : x'.hides? = some c) :
    (x.hides? = some c ∧ s'.memory = s.memory) ∨
      (s.Comes s' c ∧ ∃ chunk, s'.memory.chunk? c = some chunk ∧ chunk.references = 1) := by
  cases h with
  | stage h =>
    cases h with
    | arrive h hw =>
      cases hx
      obtain ⟨chunk, hc, -, hone⟩ := hw
      exact .inr ⟨⟨rfl, h.size⟩, chunk, hc, hone⟩
    | lose => exact .inl ⟨hx, rfl⟩
    | @publish p d settled s' _ => cases settled <;> cases hx
    | _ => cases hx
  | _ => cases hx

theorem Goes.hides_of_tells {p : Ticket} {r : Except Error ChunkRef} (h : Goes s x x' s')
    (hx : x.tells? = some (p, r)) : x'.hides? = none := by
  cases h with
  | stage h =>
    cases h with
    | hit h _ _ | join h _ _ => rcases h with rfl | rfl <;> cases hx
    | @publish p d settled s' _ => cases settled <;> rfl
    | announce => rfl
    | _ => cases hx
  | _ => cases hx

theorem Goes.held (h : Goes s x x' s') (hc : c ∈ x'.held) :
    c ∈ x.held ∨ (∃ k w, s.store.occupant? k = some (.resident c w)) ∨ s.Comes s' c := by
  have hremoves {keys : ChunkId → Bool} {before after : List Resident} {held held' : List ChunkRef}
      (h : s.Removes s' keys before after held held') (hc : c ∈ held') :
      c ∈ held ∨ (∃ k w, s.store.occupant? k = some (.resident c w)) ∨ s.Comes s' c :=
    (h.holds c hc).imp_right .inl
  cases h with
  | stage h =>
    cases h with
    | arrive h =>
      obtain rfl := List.mem_singleton.1 hc
      exact .inr (.inr ⟨rfl, h.size⟩)
    | lose => exact .inl hc
    | @publish p d settled s' _ =>
      cases settled with
      | true => cases hc
      | false => exact .inl hc
    | pass h => exact hremoves h hc
    | _ => cases hc
  | invalidate h | sweep h | evict h => exact hremoves h hc
  | _ => cases hc

/-- A chunk that nobody has a handle on is left as it is by one who does not hold it, or a handle is
made. -/
theorem Turns.spares {chunk : Chunk} (h : Turns s x x' s') (hc : s.memory.chunk? c = some chunk)
    (hnone : ∀ h ∈ s.handles, h.chunk ≠ c) (hfree : c ∉ x.held ∨ chunk.references = 0) :
    (s'.memory.chunk? c = some chunk ∧ ∀ h ∈ s'.handles, h.chunk ≠ c) ∨
    (chunk.references ≠ 0 ∧ ∃ h ∈ s'.handles, h.chunk = c) := by
  obtain @⟨_, _, _, made, _, hturns, -, hgiven, hheld⟩ := h
  by_cases hmade : ∃ h ∈ made, h.chunk = c
  · obtain ⟨h, hm, rfl⟩ := hmade
    refine .inr ⟨?_, h, hturns.handles ▸ List.mem_append_right _ hm, rfl⟩
    rcases hgiven h hm with ⟨-, ⟨-, chunk', hc', hz⟩ | ⟨he, -⟩⟩
    · rwa [Option.some.inj (hc.symm.trans hc')]
    · exact absurd he (Nat.ne_of_lt (Memory.lt_of_chunk? hc))
  · refine .inl ⟨hturns.spares c chunk hc (hfree.imp_left fun hfree hm ↦ ?_), fun h hm he ↦ ?_⟩
    · exact (hheld c hm).elim hfree hmade
    · rw [hturns.handles] at hm
      exact (List.mem_append.1 hm).elim (hnone h · he) fun hm ↦ hmade ⟨h, hm, he⟩

end Call

/-- A reference is asked for only by one who was given the chunk. -/
def Move.Informed (t : Traffic) : Move → Prop
  | reference c => ∃ d ∈ t.calls, d.given? = some c
  | _ => True

instance (t : Traffic) (m : Move) : Decidable (m.Informed t) := by
  unfold Move.Informed
  split <;> infer_instance

namespace Traffic
variable {t u v : Traffic} {log : List Tick} {m : Move} {c : ChunkRef} {i j : Nat} {k : ChunkId}

/-- What is in hand, held, resident, told of or had a handle on is one of the first `n` chunks. -/
structure Known (u : Traffic) (n : Nat) : Prop where
  mentioned : ∀ (j : Nat) (d : Call) (c : ChunkRef), u.calls[j]? = some d →
    d.mentions? = some c → c < n
  held : ∀ (j : Nat) (d : Call), u.calls[j]? = some d → ∀ c ∈ d.held, c < n
  resident : ∀ k c w, u.shared.store.occupant? k = some (.resident c w) → c < n
  told : ∀ p c, u.shared.store.result? p = some (.ok c) → c < n
  handled : ∀ h ∈ u.shared.handles, h.chunk < n

/-- Nobody has come by the chunk but the call `i`, which has not told of it. -/
structure Hidden (u : Traffic) (i : Nat) (c : ChunkRef) : Prop where
  mentioned : ∀ (j : Nat) (d : Call), u.calls[j]? = some d → d.mentions? = some c →
    i = j ∧ d.hides? = some c
  held : ∀ (j : Nat) (d : Call), u.calls[j]? = some d → c ∈ d.held → i = j
  resident : ∀ k w, u.shared.store.occupant? k ≠ some (.resident c w)
  told : ∀ p, u.shared.store.result? p ≠ some (.ok c)
  handled : ∀ h ∈ u.shared.handles, h.chunk ≠ c

def Sole (u : Traffic) (c : ChunkRef) : Prop :=
  ∃ chunk, u.shared.memory.chunk? c = some chunk ∧ chunk.references = 1

/-- All that anybody has come by was read by then, and what a call hides was never anything else. -/
structure Discreet (log : List Tick) (u : Traffic) : Prop where
  known : u.Known u.shared.memory.chunks.size
  past : ∀ x ∈ log, x.before.Known u.shared.memory.chunks.size ∧
    x.after.Known u.shared.memory.chunks.size
  sole : ∀ (i : Nat) (d : Call) (c : ChunkRef), u.calls[i]? = some d → d.hides? = some c → u.Sole c
  hidden : ∀ (i : Nat) (d : Call) (c : ChunkRef), u.calls[i]? = some d → d.hides? = some c →
    u.Hidden i c ∧ ∀ x ∈ log, x.before.Hidden i c ∧ x.after.Hidden i c

theorem handlesOn_eq_zero : u.handlesOn c = 0 ↔ ∀ h ∈ u.shared.handles, h.chunk ≠ c := by
  simp [handlesOn, List.count_eq_zero]

theorem Sole.lt (h : u.Sole c) : c < u.shared.memory.chunks.size := by
  obtain ⟨chunk, hc, -⟩ := h
  exact Memory.lt_of_chunk? hc

theorem Known.mono {n n' : Nat} (h : u.Known n) (hle : n ≤ n') : u.Known n' where
  mentioned j d c hj hd := (h.mentioned j d c hj hd).trans_le hle
  held j d hj c hc := (h.held j d hj c hc).trans_le hle
  resident k c w hk := (h.resident k c w hk).trans_le hle
  told p c hr := (h.told p c hr).trans_le hle
  handled handle hm := (h.handled handle hm).trans_le hle

theorem Known.hidden {n : Nat} (h : u.Known n) (i : Nat) : u.Hidden i n where
  mentioned j d hj hd := (Nat.lt_irrefl _ (h.mentioned j d n hj hd)).elim
  held j d hj hc := (Nat.lt_irrefl _ (h.held j d hj n hc)).elim
  resident k w hk := Nat.lt_irrefl _ (h.resident k n w hk)
  told p hr := Nat.lt_irrefl _ (h.told p n hr)
  handled handle hm := Nat.ne_of_lt (h.handled handle hm)

theorem start_empty (c : Start) : c.call.mentions? = none ∧ c.call.held = [] := by
  rcases c.call_cases with ⟨k, reader, goal, x, he, rfl | ⟨f, rfl⟩⟩ | ⟨asked, k, reader, he⟩ |
    ⟨k, he⟩ | ⟨matches?, he⟩ | he <;> rw [he] <;> exact ⟨rfl, rfl⟩

theorem Goes.mentions {d : Call} (h : t.Goes m u) (hj : u.calls[j]? = some d)
    (hd : d.mentions? = some c) : (∃ x, t.calls[j]? = some x ∧ x.mentions? = some c) ∨
      (∃ k w, t.shared.store.occupant? k = some (.resident c w)) ∨
      (∃ x p, t.calls[j]? = some x ∧ x.awaits? = some p ∧
        t.shared.store.result? p = some (.ok c)) ∨
      (t.shared.Comes u.shared c ∧ ∃ conduct, m = .advance j conduct) := by
  rcases h.came hj with ⟨-, hj⟩ | ⟨call, rfl⟩ | ⟨x, conduct, rfl, hj, hgo⟩
  · exact .inl ⟨d, hj, hd⟩
  · rw [(start_empty call).1] at hd
    cases hd
  · rcases hgo.mentions hd with hx | hk | ⟨p, hx, hp⟩ | hnew
    · exact .inl ⟨x, hj, hx⟩
    · exact .inr (.inl hk)
    · exact .inr (.inr (.inl ⟨x, p, hj, hx, hp⟩))
    · exact .inr (.inr (.inr ⟨hnew, conduct, rfl⟩))

theorem Goes.held {d : Call} (h : t.Goes m u) (hj : u.calls[j]? = some d) (hc : c ∈ d.held) :
    (∃ x, t.calls[j]? = some x ∧ c ∈ x.held) ∨
      (∃ k w, t.shared.store.occupant? k = some (.resident c w)) ∨
      (t.shared.Comes u.shared c ∧ ∃ conduct, m = .advance j conduct) := by
  rcases h.came hj with ⟨-, hj⟩ | ⟨call, rfl⟩ | ⟨x, conduct, rfl, hj, hgo⟩
  · exact .inl ⟨d, hj, hc⟩
  · rw [(start_empty call).2] at hc
    cases hc
  · rcases hgo.held hc with hx | hk | hnew
    · exact .inl ⟨x, hj, hx⟩
    · exact .inr (.inl hk)
    · exact .inr (.inr ⟨hnew, conduct, rfl⟩)

def Discloses (t u : Traffic) (c : ChunkRef) : Prop :=
  ∃ (j : Nat) (x d : Call), t.calls[j]? = some x ∧ x.brings? = some c ∧ u.calls[j]? = some d ∧
    d.hides? = none

theorem Goes.resident {w : Nat} (hp : t.shared.store.slots.Proper) (h : t.Goes m u)
    (hk : u.shared.store.occupant? k = some (.resident c w)) :
    t.shared.store.occupant? k = some (.resident c w) ∨ t.Discloses u c := by
  cases h with
  | start => exact .inl hk
  | advance hi hgo =>
    rcases (hgo.effect hp).resident hk with hold | ⟨reader, goal, p, rfl, rfl, -⟩
    · exact .inl hold
    · exact .inr ⟨_, _, _, hi, rfl, List.getElem?_set_self (List.getElem?_eq_some_iff.1 hi).1, rfl⟩
  | other store => exact .inl (store.occupants ▸ hk)

theorem Goes.result {p : Ticket} (hp : t.shared.store.slots.Proper) (h : t.Goes m u)
    (hr : u.shared.store.result? p = some (.ok c)) :
    t.shared.store.result? p = some (.ok c) ∨ t.Discloses u c := by
  cases h with
  | start => exact .inl hr
  | advance hi hgo =>
    rcases (hgo.effect hp).result hr with hold | htells
    · exact .inl hold
    · exact .inr ⟨_, _, _, hi, Call.brings_of_tells htells,
        List.getElem?_set_self (List.getElem?_eq_some_iff.1 hi).1, hgo.hides_of_tells htells⟩
  | other store => exact .inl (Store.result?_of_results store.results ▸ hr)

theorem Goes.handle {handle : Handle} (hp : t.shared.store.slots.Proper) (hm : m.Informed t)
    (h : t.Goes m u) (hh : handle ∈ u.shared.handles) :
    (∃ old ∈ t.shared.handles, old.chunk = handle.chunk) ∨
      (∃ (j : Nat) (x : Call), t.calls[j]? = some x ∧ x.given? = some handle.chunk) ∨
      (t.shared.Comes u.shared handle.chunk ∧ ∃ (j : Nat) (conduct : Conduct) (d : Call),
        m = .advance j conduct ∧ u.calls[j]? = some d ∧ d.given? = some handle.chunk) := by
  cases h with
  | start => exact .inl ⟨handle, hh, rfl⟩
  | @advance j conduct x x' s hi hgo =>
    obtain ⟨hturns, -, hgiven, -⟩ := hgo.turns hp
    rw [hturns.handles] at hh
    rcases List.mem_append.1 hh with hh | hh
    · exact .inl ⟨handle, hh, rfl⟩
    · rcases hgiven handle hh with ⟨hd, ⟨hx, -⟩ | ⟨he, rfl⟩⟩
      · exact .inr (.inl ⟨j, x, hi, hx⟩)
      · exact .inr (.inr ⟨⟨he, hturns.size⟩, j, conduct, x', rfl,
          List.getElem?_set_self (List.getElem?_eq_some_iff.1 hi).1, hd⟩)
  | other _ _ _ handles =>
    rcases handles handle hh with hold | rfl
    · exact .inl hold
    · obtain ⟨d, hd, hgiven⟩ := hm
      obtain ⟨j, hj⟩ := List.mem_iff_getElem?.1 hd
      exact .inr (.inl ⟨j, d, hj, hgiven⟩)

theorem goes_known (hp : t.shared.store.slots.Proper) (hm : m.Informed t)
    (h : t.Known t.shared.memory.chunks.size) (hs : t.Goes m u) :
    u.Known u.shared.memory.chunks.size := by
  have hold := h.mono (hs.grows hp).chunks
  have hcomes {c : ChunkRef} (hnew : t.shared.Comes u.shared c) :
      c < u.shared.memory.chunks.size := by
    rw [hnew.size, hnew.eq]
    exact Nat.lt_succ_self _
  have hdiscloses {c : ChunkRef} : t.Discloses u c → c < u.shared.memory.chunks.size :=
    fun ⟨j, x, _, hj, hx, _⟩ ↦ hold.mentioned j x c hj (Call.mentions_of_brings hx)
  refine ⟨fun j d c hj hd ↦ ?_, fun j d hj c hc ↦ ?_, fun k c w hk ↦ ?_, fun p c hr ↦ ?_,
    fun handle hh ↦ ?_⟩
  · rcases hs.mentions hj hd with ⟨x, hj, hx⟩ | ⟨k, w, hk⟩ | ⟨-, p, -, -, hr⟩ | ⟨hnew, -⟩
    · exact hold.mentioned j x c hj hx
    · exact hold.resident k c w hk
    · exact hold.told p c hr
    · exact hcomes hnew
  · rcases hs.held hj hc with ⟨x, hj, hx⟩ | ⟨k, w, hk⟩ | ⟨hnew, -⟩
    · exact hold.held j x hj c hx
    · exact hold.resident k c w hk
    · exact hcomes hnew
  · exact (hs.resident hp hk).elim (hold.resident k c w) hdiscloses
  · exact (hs.result hp hr).elim (hold.told p c) hdiscloses
  · rcases hs.handle hp hm hh with ⟨old, ho, he⟩ | ⟨j, x, hj, hx⟩ | ⟨hnew, -⟩
    · exact he ▸ hold.handled old ho
    · exact hold.mentioned j x _ hj (Call.mentions_of_given hx)
    · exact hcomes hnew

theorem hides_of_goes {d : Call} (hs : t.Goes m u) (hi : u.calls[i]? = some d)
    (hd : d.hides? = some c) :
    (∃ x, t.calls[i]? = some x ∧ x.hides? = some c ∧
      ((⟨t, m, u⟩ : Tick).mover? = some i → u.shared.memory = t.shared.memory)) ∨
    (t.shared.Comes u.shared c ∧ u.Sole c ∧ ∃ conduct, m = .advance i conduct) := by
  rcases hs.came hi with ⟨hmover, hi⟩ | ⟨call, rfl⟩ | ⟨x, conduct, rfl, hi, hgo⟩
  · exact .inl ⟨d, hi, hd, fun hm ↦ (hmover hm).elim⟩
  · have hmentions := Call.mentions_of_brings (Call.brings_of_hides hd)
    rw [(start_empty call).1] at hmentions
    cases hmentions
  · rcases hgo.hides hd with ⟨hx, hmemory⟩ | ⟨hnew, hsole⟩
    · exact .inl ⟨x, hi, hx, fun _ ↦ hmemory⟩
    · exact .inr ⟨hnew, hsole, conduct, rfl⟩

theorem mover_of_comes {s s' : Shared} {conduct : Conduct} (hc : s.Comes s' c)
    (hold : c < s.memory.chunks.size ∨ ∃ conduct', Move.advance j conduct = .advance i conduct') :
    i = j := by
  rcases hold with hlt | ⟨conduct', he⟩
  · exact (Nat.lt_irrefl _ (hc.eq ▸ hlt)).elim
  · cases he
    rfl

theorem goes_held (h : ∀ (j : Nat) (d : Call), t.calls[j]? = some d → c ∈ d.held → i = j)
    (hresident : ∀ k w, t.shared.store.occupant? k ≠ some (.resident c w)) (hs : t.Goes m u)
    (hold : c < t.shared.memory.chunks.size ∨ ∃ conduct, m = .advance i conduct) :
    ∀ (j : Nat) (d : Call), u.calls[j]? = some d → c ∈ d.held → i = j := by
  intro j d hj hd
  rcases hs.held hj hd with ⟨x, hj, hx⟩ | ⟨k, w, hk⟩ | ⟨hnew, conduct, rfl⟩
  · exact h j x hj hx
  · exact (hresident k w hk).elim
  · exact mover_of_comes hnew hold

theorem goes_hidden {d : Call} (hp : t.shared.store.slots.Proper) (hm : m.Informed t)
    (h : t.Hidden i c) (hs : t.Goes m u) (hi : u.calls[i]? = some d) (hd : d.hides? = some c)
    (hold : c < t.shared.memory.chunks.size ∨ ∃ conduct, m = .advance i conduct) :
    u.Hidden i c := by
  -- A call that discloses a chunk goes on without it.
  have hdiscloses : ¬ t.Discloses u c := by
    rintro ⟨j, x, e, hj, hx, he, hnone⟩
    obtain ⟨rfl, -⟩ := h.mentioned j x hj (Call.mentions_of_brings hx)
    obtain rfl := Option.some.inj (hi.symm.trans he)
    rw [hd] at hnone
    cases hnone
  refine ⟨fun j x hj hx ↦ ?_, goes_held h.held h.resident hs hold, fun k w hk ↦ ?_, fun p hr ↦ ?_,
    fun handle hh he ↦ ?_⟩
  · have hself (hij : i = j) : i = j ∧ x.hides? = some c := by
      subst hij
      exact ⟨rfl, Option.some.inj (hi.symm.trans hj) ▸ hd⟩
    rcases hs.mentions hj hx with ⟨y, hy, hmentions⟩ | ⟨k, w, hk⟩ | ⟨-, p, -, -, hr⟩ |
      ⟨hnew, conduct, rfl⟩
    · exact hself (h.mentioned j y hy hmentions).1
    · exact (h.resident k w hk).elim
    · exact (h.told p hr).elim
    · exact hself (mover_of_comes hnew hold)
  · exact (hs.resident hp hk).elim (h.resident k w) hdiscloses
  · exact (hs.result hp hr).elim (h.told p) hdiscloses
  · subst he
    rcases hs.handle hp hm hh with ⟨old, ho, he⟩ | ⟨j, x, hj, hx⟩ |
      ⟨hnew, j, conduct, e, rfl, he, hgiven⟩
    · exact h.handled old ho he
    · have hhides := (h.mentioned j x hj (Call.mentions_of_given hx)).2
      rw [Call.hides_of_given hx] at hhides
      cases hhides
    · obtain rfl := mover_of_comes hnew hold
      obtain rfl := Option.some.inj (hi.symm.trans he)
      rw [Call.hides_of_given hgiven] at hd
      cases hd

theorem Goes.spares {chunk : Chunk} (hp : t.shared.store.slots.Proper) (h : t.Goes m u)
    (hc : t.shared.memory.chunk? c = some chunk) (hnone : ∀ h ∈ t.shared.handles, h.chunk ≠ c)
    (hfree : (∀ x, (⟨t, m, u⟩ : Tick).came? = some x → c ∉ x.held) ∨ chunk.references = 0) :
    (u.shared.memory.chunk? c = some chunk ∧ ∀ h ∈ u.shared.handles, h.chunk ≠ c) ∨
    (chunk.references ≠ 0 ∧ ∃ h ∈ u.shared.handles, h.chunk = c) := by
  cases h with
  | start call => exact .inl ⟨hc, hnone⟩
  | advance hi hgo => exact (hgo.turns hp).spares hc hnone (hfree.imp_left fun hfree ↦ hfree _ hi)
  | other store ages size handles spares => exact spares c chunk hc hnone

theorem not_held_of_mover {x : Tick}
    (h : ∀ (j : Nat) (d : Call), x.before.calls[j]? = some d → c ∈ d.held → i = j)
    (hx : x.mover? ≠ some i) (d : Call) (hd : x.came? = some d) : c ∉ d.held := by
  obtain ⟨j, hj, hd⟩ := Option.bind_eq_some_iff.1 hd
  exact fun hheld ↦ hx (h j d hd hheld ▸ hj)

theorem goes_sole (hp : t.shared.store.slots.Proper) (h : t.Sole c) (ht : t.Hidden i c)
    (hu : u.Hidden i c) (hs : t.Goes m u)
    (hself : (⟨t, m, u⟩ : Tick).mover? = some i → u.shared.memory = t.shared.memory) :
    u.Sole c := by
  obtain ⟨chunk, hc, hone⟩ := h
  -- The call itself leaves the memory alone, and no other one holds the chunk.
  by_cases hmover : (⟨t, m, u⟩ : Tick).mover? = some i
  · exact ⟨chunk, hself hmover ▸ hc, hone⟩
  · have hfree := not_held_of_mover ht.held hmover
    rcases hs.spares hp hc ht.handled (.inl hfree) with ⟨hc', -⟩ | ⟨-, handle, hm, he⟩
    · exact ⟨chunk, hc', hone⟩
    · exact (hu.handled handle hm he).elim

theorem goes_discreet (hp : t.shared.store.slots.Proper) (hm : m.Informed t) (h : Discreet log t)
    (hs : t.Goes m u) : Discreet (log ++ [⟨t, m, u⟩]) u := by
  have hgrow := (hs.grows hp).chunks
  have hknown := goes_known hp hm h.known hs
  have hmain (i : Nat) (d : Call) (c : ChunkRef) (hi : u.calls[i]? = some d)
      (hd : d.hides? = some c) : u.Sole c ∧ u.Hidden i c ∧ t.Hidden i c ∧
        ∀ x ∈ log, x.before.Hidden i c ∧ x.after.Hidden i c := by
    -- What was hidden stays so, and what has just been read is in nothing that went before.
    rcases hides_of_goes hs hi hd with ⟨e, hi', he, hself⟩ | ⟨hnew, hsole, hmover⟩
    · obtain ⟨hidden, hpast⟩ := h.hidden i e c hi' he
      have hsole := h.sole i e c hi' he
      have hu := goes_hidden hp hm hidden hs hi hd (.inl hsole.lt)
      exact ⟨goes_sole hp hsole hidden hu hs hself, hu, hidden, hpast⟩
    · obtain rfl := hnew.eq
      have hidden := h.known.hidden i
      exact ⟨hsole, goes_hidden hp hm hidden hs hi hd (.inr hmover), hidden,
        fun x hx ↦ ⟨(h.past x hx).1.hidden i, (h.past x hx).2.hidden i⟩⟩
  refine ⟨hknown, fun x hx ↦ ?_, fun i d c hi hd ↦ (hmain i d c hi hd).1, fun i d c hi hd ↦ ?_⟩
  · rcases List.mem_append.1 hx with hx | hx
    · exact (h.past x hx).imp (·.mono hgrow) (·.mono hgrow)
    · obtain rfl := List.mem_singleton.1 hx
      exact ⟨h.known.mono hgrow, hknown⟩
  · obtain ⟨-, hu, ht, hpast⟩ := hmain i d c hi hd
    refine ⟨hu, fun x hx ↦ ?_⟩
    rcases List.mem_append.1 hx with hx | hx
    · exact hpast x hx
    · obtain rfl := List.mem_singleton.1 hx
      exact ⟨ht, hu⟩

theorem discreet_of_initial (h : t.Initial) : Discreet [] t := by
  have hcalls (j : Nat) (d : Call) : t.calls[j]? ≠ some d := by simp [h.calls]
  refine ⟨⟨fun j d c hj ↦ (hcalls j d hj).elim, fun j d hj ↦ (hcalls j d hj).elim,
    fun k c w hk ↦ ?_, fun p c hr ↦ ?_, fun handle hm ↦ ?_⟩, fun _ hx ↦ absurd hx List.not_mem_nil,
    fun i d c hi ↦ (hcalls i d hi).elim, fun i d c hi ↦ (hcalls i d hi).elim⟩
  · rw [h.occupant?] at hk
    cases hk
  · simp [Store.result?, h.results] at hr
  · rw [h.handles] at hm
    cases hm

theorem Records.discreet (ht : t.Initial) (h : Records t log v)
    (hinformed : ∀ x ∈ log, x.move.Informed x.before) : Discreet log v := by
  refine h.invariant (P := fun log v ↦ (∀ x ∈ log, x.move.Informed x.before) → Discreet log v)
    ht.proper (fun _ ↦ discreet_of_initial ht) ?_ hinformed
  intro log u m v hp ih hs hinformed
  exact goes_discreet hp (hinformed _ (List.mem_append_right _ List.mem_cons_self))
    (ih fun x hx ↦ hinformed x (List.mem_append_left _ hx)) (step_goes hp hs)

end Traffic
end ReadCache
