import ReadCache.Proofs.Transitions
import ReadCache.Proofs.Weights

namespace ReadCache

theorem getElem?_of_snoc {α : Type} {list : List α} {l : Nat} {y z : α}
    (hz : (list ++ [y])[l]? = some z) : list[l]? = some z ∨ l = list.length ∧ z = y := by
  rcases Nat.lt_or_ge l list.length with hlt | hge
  · exact .inl (by rwa [List.getElem?_append_left hlt] at hz)
  · rw [List.getElem?_append_right hge] at hz
    obtain ⟨hl, hz⟩ := List.getElem?_eq_some_iff.1 hz
    simp only [List.length_singleton] at hl
    refine .inr ⟨by omega, ?_⟩
    simpa using hz.symm

theorem getElem?_of_set {α : Type} {list : List α} {i j : Nat} {y z : α}
    (hz : (list.set i y)[j]? = some z) : i = j ∧ z = y ∨ i ≠ j ∧ list[j]? = some z := by
  by_cases he : i = j
  · subst he
    rw [List.getElem?_set_self'] at hz
    obtain ⟨w, -, rfl⟩ := Option.map_eq_some_iff.1 hz
    exact .inl ⟨rfl, rfl⟩
  · exact .inr ⟨he, by rwa [List.getElem?_set_ne he] at hz⟩

structure Tick where
  before : Traffic
  move : Move
  after : Traffic

namespace Tick

def mover? (x : Tick) : Option Nat :=
  match x.move with
  | .advance i _ => some i
  | _ => none

theorem move_of_mover {x : Tick} {i : Nat} (h : x.mover? = some i) :
    ∃ conduct, x.move = .advance i conduct := by
  unfold mover? at h
  split at h
  · cases h
    exact ⟨_, ‹_›⟩
  · cases h

def came? (x : Tick) : Option Call := x.mover?.bind (x.before.calls[·]?)

def went? (x : Tick) : Option Call := x.mover?.bind (x.after.calls[·]?)

/-- The key of the request that makes the move, and its stages before and after. -/
def stages? (x : Tick) : Option (ChunkId × Stage × Stage) :=
  match x.came?, x.went? with
  | some (.get k _ _ stage), some (.get _ _ _ stage') => some (k, stage, stage')
  | _, _ => none

def tells? (x : Tick) : Option (Ticket × Except Error ChunkRef) := x.came?.bind Call.tells?

def asks (k : ChunkId) (x : Tick) : Bool :=
  match x.stages? with
  | some (k', .seek, _) => k' = k
  | _ => false

def begins (k : ChunkId) (x : Tick) : Bool :=
  match x.stages? with
  | some (k', .claim, .borrow _) => k' = k
  | _ => false

def reads (k : ChunkId) (x : Tick) : Bool :=
  match x.stages? with
  | some (k', .borrow _, .read ..) => k' = k
  | _ => false

def frees (k : ChunkId) (x : Tick) : Bool :=
  (x.before.shared.store.occupant? k).isSome && (x.after.shared.store.occupant? k).isNone

def tells (t : Ticket) (x : Tick) : Bool := x.tells?.any fun told ↦ told.1 = t

end Tick

namespace Traffic

/-- A run from `t`, move by move. -/
inductive Records (t : Traffic) : List Tick → Traffic → Prop where
  | nil : Records t [] t
  | snoc {log : List Tick} {u v : Traffic} {m : Move} (h : Records t log u)
      (hs : u.step m = some v) :
      Records t (log ++ [⟨u, m, v⟩]) v

variable {t u v : Traffic} {log log' : List Tick}

theorem Records.cons {m : Move} (hs : t.step m = some u) (h : Records u log v) :
    Records t (⟨t, m, u⟩ :: log) v := by
  induction h with
  | nil => exact .snoc .nil hs
  | snoc _ hs' ih => exact .snoc ih hs'

theorem Records.append (h : Records t log u) (h' : Records u log' v) :
    Records t (log ++ log') v := by
  induction h' with
  | nil => rwa [List.append_nil]
  | snoc _ hs ih => exact List.append_assoc .. ▸ .snoc ih hs

theorem Records.split {before after : List Tick} (h : Records t (before ++ after) v) :
    ∃ u, Records t before u ∧ Records u after v := by
  generalize he : before ++ after = log at h
  induction h generalizing after with
  | nil =>
    obtain ⟨rfl, rfl⟩ := List.append_eq_nil_iff.1 he
    exact ⟨t, .nil, .nil⟩
  | @snoc log u v m h hs ih =>
    rcases List.eq_nil_or_concat after with rfl | ⟨after, x, rfl⟩
    · rw [List.append_nil] at he
      exact ⟨v, he ▸ .snoc h hs, .nil⟩
    · rw [List.concat_eq_append, ← List.append_assoc] at he
      obtain ⟨hlog, hx⟩ := List.append_inj' he rfl
      obtain ⟨w, hbefore, hafter⟩ := ih hlog
      rw [List.concat_eq_append, List.singleton_inj.1 hx]
      exact ⟨w, hbefore, .snoc hafter hs⟩

theorem Records.at {n : Nat} {x : Tick} (h : Records t log v) (hn : log[n]? = some x) :
    Records t (log.take n) x.before ∧ x.before.step x.move = some x.after ∧
      Records x.after (log.drop (n + 1)) v := by
  obtain ⟨hlt, rfl⟩ := List.getElem?_eq_some_iff.1 hn
  have he : log = (log.take n ++ [log[n]]) ++ log.drop (n + 1) := by simp
  rw [he] at h
  obtain ⟨w, hbefore, hafter⟩ := h.split
  generalize hpast : log.take n ++ [log[n]] = past at hbefore
  cases hbefore with
  | nil => exact absurd hpast (List.concat_ne_nil _ _)
  | snoc hbefore hs =>
    obtain ⟨hlog, hx⟩ := List.append_inj' hpast rfl
    rw [List.singleton_inj.1 hx, hlog]
    exact ⟨hbefore, hs, hafter⟩

theorem Records.between {n m : Nat} {x y : Tick} (h : Records t log v) (hx : log[n]? = some x)
    (hy : log[m]? = some y) (hlt : n < m) :
    ∃ log' ⊆ log.drop (n + 1), Records x.after log' y.before := by
  have hy' : (log.drop (n + 1))[m - (n + 1)]? = some y := by
    rw [List.getElem?_drop, Nat.add_sub_cancel' hlt]
    exact hy
  exact ⟨_, List.take_subset _ _, ((h.at hx).2.2.at hy').1⟩

theorem Records.reaches {sane : Traffic → Prop} (h : Records t log v)
    (hsane : ∀ x ∈ log, sane x.after) : t.Reaches sane v := by
  induction h with
  | nil => exact .refl
  | snoc _ hs ih =>
    refine .step _ (ih fun x hx ↦ hsane x (List.mem_append_left _ hx)) hs ?_
    exact hsane _ (List.mem_append_right _ List.mem_cons_self)

theorem Records.reachable (h : Records t log v) : t.Reaches (fun _ ↦ True) v :=
  h.reaches fun _ _ ↦ trivial

theorem Records.proper (hp : t.shared.store.slots.Proper) (h : Records t log v) :
    v.shared.store.slots.Proper := by
  induction h with
  | nil => exact hp
  | snoc _ hs ih => exact ((step_goes ih hs).grows ih).proper

/-- What holds at first, and after every move if it held before, holds of every run. -/
theorem Records.invariant {P : List Tick → Traffic → Prop} (hp : t.shared.store.slots.Proper)
    (h : Records t log v) (hnil : P [] t)
    (hsnoc : ∀ log u m v, u.shared.store.slots.Proper → P log u → u.step m = some v →
      P (log ++ [⟨u, m, v⟩]) v) : P log v := by
  induction h with
  | nil => exact hnil
  | snoc h hs ih => exact hsnoc _ _ _ _ (h.proper hp) ih hs

theorem Records.grows (hp : t.shared.store.slots.Proper) (h : Records t log v) :
    t.shared.Grows v.shared := by
  refine h.invariant (P := fun _ v ↦ t.shared.Grows v.shared) hp (Shared.grows_refl hp) ?_
  intro log u m v hu ih hs
  exact ih.trans ((step_goes hu hs).grows hu)

theorem Goes.calls_length {m : Move} (h : t.Goes m u) : t.calls.length ≤ u.calls.length := by
  cases h with
  | start c => simp
  | advance => simp
  | other => exact Nat.le_refl _

theorem Records.calls_length (hp : t.shared.store.slots.Proper) (h : Records t log v) :
    t.calls.length ≤ v.calls.length :=
  h.invariant (P := fun _ v ↦ t.calls.length ≤ v.calls.length) hp (Nat.le_refl _)
    fun _ _ _ _ hu ih hs ↦ ih.trans (step_goes hu hs).calls_length

theorem Initial.proper (h : t.Initial) : t.shared.store.slots.Proper :=
  (weighed_of_initial h).proper

theorem Initial.occupant? (h : t.Initial) (k : ChunkId) : t.shared.store.occupant? k = none := by
  obtain ⟨settings, hash, hstore⟩ := h.store
  rw [Store.occupant?_eq_none, h.proper.get?_eq_none_iff, Store.create?_eq hstore,
    ShardedMap.toList_empty]
  simp

theorem Initial.results (h : t.Initial) : t.shared.store.results = #[] := by
  obtain ⟨settings, hash, hstore⟩ := h.store
  rw [Store.create?_eq hstore]

theorem came?_advance {i : Nat} {conduct : Conduct} {c : Call} (hi : t.calls[i]? = some c) :
    (⟨t, .advance i conduct, u⟩ : Tick).came? = some c := hi

theorem mover?_other {m : Move} (hm : ∀ i conduct, m ≠ .advance i conduct) :
    (⟨t, m, u⟩ : Tick).mover? = none := by
  cases m with
  | advance i conduct => exact absurd rfl (hm i conduct)
  | _ => rfl

theorem came?_other {m : Move} (hm : ∀ i conduct, m ≠ .advance i conduct) :
    (⟨t, m, u⟩ : Tick).came? = none := by
  rw [Tick.came?, mover?_other hm]
  rfl

theorem went?_advance {i : Nat} {conduct : Conduct} {c c' : Call} {s : Shared}
    (hi : t.calls[i]? = some c) :
    (⟨t, .advance i conduct, ⟨s, t.calls.set i c'⟩⟩ : Tick).went? = some c' := by
  simp [Tick.went?, Tick.mover?, (List.getElem?_eq_some_iff.1 hi).1]

theorem Goes.call {m : Move} {i : Nat} {x : Call} (h : t.Goes m u) (hi : t.calls[i]? = some x) :
    (⟨t, m, u⟩ : Tick).mover? ≠ some i ∧ u.calls[i]? = some x ∨
    ∃ x' conduct s, m = .advance i conduct ∧ u = ⟨s, t.calls.set i x'⟩ ∧
      x.Goes t.shared x' s ∧ x.step conduct t.shared = some (x', s) := by
  cases h with
  | start c =>
    exact .inl ⟨by simp [Tick.mover?],
      by rwa [List.getElem?_append_left (List.getElem?_eq_some_iff.1 hi).1]⟩
  | @advance j conduct c c' s hj hgo hs =>
    by_cases he : j = i
    · subst he
      obtain rfl := Option.some.inj (hi.symm.trans hj)
      exact .inr ⟨c', conduct, s, rfl, rfl, hgo, hs⟩
    · exact .inl ⟨fun hm ↦ he (Option.some.inj hm), by rwa [List.getElem?_set_ne he]⟩
  | other _ _ _ _ _ hm => exact .inl ⟨by simp [mover?_other hm], hi⟩

theorem Goes.came {m : Move} {j : Nat} {d : Call} (h : t.Goes m u) (hj : u.calls[j]? = some d) :
    (⟨t, m, u⟩ : Tick).mover? ≠ some j ∧ t.calls[j]? = some d ∨ (∃ c : Start, d = c.call) ∨
    ∃ x conduct, m = .advance j conduct ∧ t.calls[j]? = some x ∧ x.Goes t.shared d u.shared := by
  cases h with
  | start c =>
    rcases getElem?_of_snoc hj with hj | ⟨-, rfl⟩
    · exact .inl ⟨by simp [Tick.mover?], hj⟩
    · exact .inr (.inl ⟨c, rfl⟩)
  | advance hi hgo =>
    rcases getElem?_of_set hj with ⟨rfl, rfl⟩ | ⟨hne, hj⟩
    · exact .inr (.inr ⟨_, _, rfl, hi, hgo⟩)
    · exact .inl ⟨fun hm ↦ hne (Option.some.inj hm), hj⟩
  | other _ _ _ _ _ hm => exact .inl ⟨by simp [mover?_other hm], hj⟩

theorem Goes.effect {m : Move} (hp : t.shared.store.slots.Proper) (h : t.Goes m u) :
    t.shared.store.Stays u.shared.store ∨
    ∃ c c', (⟨t, m, u⟩ : Tick).came? = some c ∧ (⟨t, m, u⟩ : Tick).went? = some c' ∧
      c.Effect t.shared c' u.shared := by
  cases h with
  | start c => exact .inl (Store.stays_refl hp)
  | advance hi h => exact .inr ⟨_, _, hi, went?_advance hi, h.effect hp⟩
  | other store => exact .inl store

theorem stages?_advance {i : Nat} {conduct : Conduct} {k : ChunkId} {reader reader' : Nat}
    {goal goal' : Goal} {a b : Stage} {s : Shared}
    (hi : t.calls[i]? = some (.get k reader goal a)) :
    (⟨t, .advance i conduct, ⟨s, t.calls.set i (.get k reader' goal' b)⟩⟩ : Tick).stages? =
      some (k, a, b) := by
  simp only [Tick.stages?, came?_advance hi, went?_advance hi]

theorem Goes.stage {m : Move} {k : ChunkId} {a b : Stage} (h : t.Goes m u)
    (hx : (⟨t, m, u⟩ : Tick).stages? = some (k, a, b)) :
    Stage.Goes k t.shared a b u.shared ∨ ∃ c, a = .answered (.ok c) := by
  cases h with
  | start c => cases hx
  | @advance i conduct c c' s hi hgo =>
    simp only [Tick.stages?, came?_advance hi, went?_advance hi] at hx
    cases hgo with
    | stage hgo =>
      cases hx
      exact .inl hgo
    | take | retry | refuse =>
      cases hx
      exact .inr ⟨_, rfl⟩
    | _ => cases hx
  | other _ _ _ _ _ hm =>
    simp only [Tick.stages?, came?_other hm] at hx
    cases hx

def record (t : Traffic) : List Move → Option (List Tick × Traffic)
  | [] => some ([], t)
  | m :: rest => (t.step m).bind fun u ↦ (u.record rest).map fun (log, v) ↦ (⟨t, m, u⟩ :: log, v)

theorem records_of_record {moves : List Move} (h : t.record moves = some (log, v)) :
    Records t log v := by
  induction moves generalizing t log with
  | nil =>
    cases h
    exact .nil
  | cons m moves ih =>
    obtain ⟨u, hu, hrest⟩ := Option.bind_eq_some_iff.1 h
    obtain ⟨⟨log', v'⟩, hrec, he⟩ := Option.map_eq_some_iff.1 hrest
    cases he
    exact .cons hu (ih hrec)

/-- A run from nothing that can be computed, and what is seen of it. -/
theorem exists_of_record (settings : Store.Settings) (hash : ChunkId → UInt64) (moves : List Move)
    (P : List Tick → Traffic → Prop) [∀ log v, Decidable (P log v)]
    (h : ((create? settings hash).bind (·.record moves)).any fun r ↦ P r.1 r.2) :
    ∃ t v log, t.Initial ∧ Records t log v ∧ P log v := by
  obtain ⟨⟨log, v⟩, hrun, hprops⟩ := (Option.any_eq_true _ _).1 h
  obtain ⟨t, ht, hrun⟩ := Option.bind_eq_some_iff.1 hrun
  exact ⟨t, v, log, initial_of_create? ht, records_of_record hrun, of_decide_eq_true hprops⟩

end Traffic
end ReadCache
