import ReadCache.Proofs.Overcounting
import ReadCache.Proofs.Recency

namespace ReadCache

theorem Bindings.insert_eq_map {K V : Type} [DecidableEq K] {l : Bindings K V} {k : K} {old : V}
    (f : V → V) (hl : l.keys.Nodup) (h : l.get? k = some old) :
    l.insert k (f old) = l.map fun b ↦ (b.1, if b.1 = k then f b.2 else b.2) := by
  induction l with
  | nil => cases h
  | cons b rest ih =>
    obtain ⟨key, value⟩ := b
    simp only [keys, List.map_cons, List.nodup_cons] at hl
    by_cases hk : key = k
    · subst hk
      simp only [get?, if_true, Option.some.injEq] at h
      have hrest : rest.map (fun b ↦ (b.1, if b.1 = key then f b.2 else b.2)) = rest := by
        refine (List.map_congr_left fun b hb ↦ ?_).trans (List.map_id rest)
        have hne : b.1 ≠ key := fun he ↦ hl.1 (he ▸ List.mem_map_of_mem hb)
        simp [hne]
      simp [insert, h, hrest]
    · simp only [get?, hk, if_false] at h
      simp [insert, hk, ih hl.2 h]

namespace ShardedMap
variable {K V : Type}

def mapValues (m : ShardedMap K V) (f : K → V → V) : ShardedMap K V :=
  { m with shards := m.shards.map fun l ↦ l.map fun b ↦ (b.1, f b.1 b.2) }

variable {m : ShardedMap K V}

theorem mapValues_same (m : ShardedMap K V) : m.mapValues (fun _ v ↦ v) = m := by
  simp [mapValues]

theorem mapValues_mapValues (m : ShardedMap K V) (f g : K → V → V) :
    (m.mapValues f).mapValues g = m.mapValues fun k v ↦ g k (f k v) := by
  simp [mapValues, Function.comp_def]

variable [DecidableEq K]

theorem Proper.insert_eq_mapValues (hm : m.Proper) {k : K} {old : V} (f : V → V)
    (h : m.get? k = some old) :
    m.insert k (f old) = m.mapValues fun k' v ↦ if k' = k then f v else v := by
  have hshards : (m.insert k (f old)).shards =
      (m.mapValues fun k' v ↦ if k' = k then f v else v).shards := by
    refine Array.ext (by simp [ShardedMap.insert, ShardedMap.setShard, mapValues]) fun i _ hi ↦ ?_
    have hlt : i < m.shards.size := by simpa [mapValues] using hi
    have hat : m.shards[i] = m.shard i := by simp [shard, hlt]
    by_cases he : m.home k = i
    · subst he
      have hlist := Bindings.insert_eq_map f (hm.keys_nodup _) h
      simpa [ShardedMap.insert, ShardedMap.setShard, mapValues, hat] using hlist
    · have hsame : (m.shard i).map (fun b ↦ (b.1, if b.1 = k then f b.2 else b.2)) = m.shard i := by
        refine (List.map_congr_left fun b hb ↦ ?_).trans (List.map_id _)
        have hne : b.1 ≠ k := fun hbk ↦ he (hbk ▸ hm.home i b hb)
        simp [hne]
      simp only [ShardedMap.insert, ShardedMap.setShard, mapValues, Array.getElem_map]
      rw [Array.getElem_setIfInBounds_ne hlt he, hat, hsame]
  exact congrArg (ShardedMap.mk m.hash) hshards

theorem Proper.insert_same (hm : m.Proper) {k : K} {old : V} (h : m.get? k = some old) :
    m.insert k old = m := by
  have hmap := hm.insert_eq_mapValues id h
  simpa [mapValues_same] using hmap

end ShardedMap

def Slot.restamp (clock : Nat) : Slot → Slot
  | resident r => .resident { r with lastAccess := max r.lastAccess clock }
  | loading t => .loading t

theorem Slot.restamp_restamp (clock : Nat) (slot : Slot) :
    (slot.restamp clock).restamp clock = slot.restamp clock := by
  cases slot <;> simp [restamp]

namespace Store

/-- The table after hits on the residents at some keys. -/
def hitAll (s : Store) (keys : List ChunkId) : Store :=
  { s with
    slots := s.slots.mapValues fun k slot ↦ if k ∈ keys then slot.restamp s.clock else slot
    counters := { s.counters with hits := s.counters.hits + keys.length } }

/-- Nothing but the counters differs. -/
def SameTable (s s' : Store) : Prop := s' = { s with counters := s'.counters }

variable {s s' : Store} {k : ChunkId}

theorem hitAll_nil (s : Store) : s.hitAll [] = s := by
  simp [hitAll, ShardedMap.mapValues_same]

theorem hitAll_hitAll (s : Store) (keys keys' : List ChunkId) :
    (s.hitAll keys).hitAll keys' = s.hitAll (keys ++ keys') := by
  have hboth (k : ChunkId) (slot : Slot) :
      (if k ∈ keys' then (if k ∈ keys then slot.restamp s.clock else slot).restamp s.clock
        else if k ∈ keys then slot.restamp s.clock else slot) =
      if k ∈ keys ++ keys' then slot.restamp s.clock else slot := by
    by_cases hk : k ∈ keys <;> by_cases hk' : k ∈ keys' <;> simp [hk, hk', Slot.restamp_restamp]
  simp only [hitAll, ShardedMap.mapValues_mapValues, hboth, List.length_append, Nat.add_assoc]

theorem hitAll_sameTable {keys keys' : List ChunkId} (h : ∀ k, k ∈ keys ↔ k ∈ keys') :
    (s.hitAll keys).SameTable (s.hitAll keys') := by
  simp only [SameTable, hitAll, h]

theorem touch_eq_hitAll (hp : s.slots.Proper) {r : Resident}
    (hr : s.slots.get? k = some (.resident r)) : (s.touch k r).record .hit = s.hitAll [k] := by
  have hmap : s.slots.insert k ((Slot.resident r).restamp s.clock) = (s.hitAll [k]).slots := by
    simpa [hitAll] using hp.insert_eq_mapValues (Slot.restamp s.clock) hr
  have hslots : (s.touch k r).slots = (s.hitAll [k]).slots := by
    rw [← hmap]
    unfold touch
    split
    · rename_i hlt
      rw [Slot.restamp, Nat.max_eq_right (Nat.le_of_lt hlt)]
    · rename_i hge
      rw [Slot.restamp, Nat.max_eq_left (Nat.le_of_not_lt hge)]
      exact (hp.insert_same hr).symm
  have hrest : (s.touch k r).record .hit = { s.hitAll [k] with slots := (s.touch k r).slots } := by
    unfold touch
    split <;> rfl
  rw [hrest, hslots]

end Store

def Call.takes : Call → Call → Bool
  | get _ _ _ (.answered (.ok _)), get _ _ _ (.holding _) => true
  | _, _ => false

namespace Tick

def hit? (x : Tick) : Option ChunkId :=
  match x.use? with
  | some (.hit k) => some k
  | _ => none

def takes (x : Tick) : Bool :=
  match x.came?, x.went? with
  | some c, some c' => c.takes c'
  | _, _ => false

/-- A call begins, hits, or makes a handle of what it has hit. -/
def hitting (x : Tick) : Bool :=
  match x.move with
  | .start _ => true
  | _ => x.hit?.isSome || x.takes

end Tick

def hitKeys (log : List Tick) : List ChunkId := log.filterMap Tick.hit?

theorem Stage.use?_eq_hit {k k' : ChunkId} {x x' : Stage} (h : x.use? k x' = some (.hit k')) :
    (x = seek ∨ x = claim) ∧ k = k' ∧ ∃ c, x' = answered (.ok c) := by
  unfold use? at h
  split at h <;> cases h
  · exact ⟨.inl rfl, rfl, _, rfl⟩
  · exact ⟨.inr rfl, rfl, _, rfl⟩

/-- What hits leave of what the calls share: new stamps, their number, and the handles made of what
they found, each with a reference. -/
structure Shared.OnlyHit (s s' : Shared) (keys : List ChunkId) (taken : List Handle) : Prop where
  store : s'.store = s.store.hitAll keys
  pool : s'.memory.pool = s.memory.pool
  size : s'.memory.chunks.size = s.memory.chunks.size
  chunks : ∀ c, s'.memory.chunk? c =
    (s.memory.chunk? c).map (·.shareMany ((taken.map Handle.chunk).count c))
  rest : s' = { s with engine := s'.engine, handles := s.handles ++ taken }

namespace Shared
variable {s s' s'' : Shared} {keys keys' : List ChunkId} {taken taken' : List Handle}

theorem onlyHit_refl (s : Shared) : s.OnlyHit s [] [] where
  store := (Store.hitAll_nil _).symm
  pool := rfl
  size := rfl
  chunks c := by simp [Chunk.shareMany_zero]
  rest := by simp

theorem OnlyHit.trans (h : s.OnlyHit s' keys taken) (h' : s'.OnlyHit s'' keys' taken') :
    s.OnlyHit s'' (keys ++ keys') (taken ++ taken') where
  store := by rw [h'.store, h.store, Store.hitAll_hitAll]
  pool := h'.pool.trans h.pool
  size := h'.size.trans h.size
  chunks c := by
    rw [h'.chunks, h.chunks, Option.map_map, List.map_append, List.count_append]
    simp only [Function.comp_def, Chunk.shareMany_shareMany]
  rest := by rw [h'.rest, h.rest, List.append_assoc]

theorem onlyHit_hit (hp : s.store.slots.Proper) {k : ChunkId} {r : Resident}
    (hr : s.store.slots.get? k = some (.resident r)) :
    s.OnlyHit (s.onStore fun _ ↦ (s.store.touch k r).record .hit) [k] [] where
  store := Store.touch_eq_hitAll hp hr
  pool := rfl
  size := rfl
  chunks c := by simp [Chunk.shareMany_zero, onStore, withEngine, Engine.onStore]
  rest := by simp [onStore, withEngine]

theorem onlyHit_take {c : ChunkRef} {h : Handle} (hh : h.chunk = c)
    (hr : (s.memory.reference c).1 = .ok true) :
    s.OnlyHit ((s.onMemory fun _ ↦ (s.memory.reference c).2).addHandle h) [] [h] := by
  subst hh
  rcases Memory.reference_cases s.memory h.chunk with ⟨chunk, hc, -, -, he⟩ | ⟨hne, -⟩
  · have hmemory : ((s.onMemory fun _ ↦ (s.memory.reference h.chunk).2).addHandle h).memory =
        s.memory.setChunk h.chunk (chunk.shareMany 1) := congrArg Prod.snd he
    constructor
    case store => exact (Store.hitAll_nil _).symm
    case pool => rw [hmemory, Memory.setChunk]
    case size => rw [hmemory, Memory.size_setChunk]
    case chunks =>
      intro c
      rw [hmemory, Memory.chunk?_setChunk (Memory.lt_of_chunk? hc)]
      by_cases hne : h.chunk = c
      · simp [← hne, hc]
      · simp [hne, Chunk.shareMany_zero]
    case rest => rfl
  · exact absurd hr hne

end Shared

theorem Stage.onlyHit_of_use? {k k' : ChunkId} {c : Conduct} {s s' : Shared} {x x' : Stage}
    (hp : s.store.slots.Proper) (hs : x.step k c s = some (x', s'))
    (hu : x.use? k x' = some (.hit k')) : s.OnlyHit s' [k'] [] := by
  obtain ⟨-, rfl, chunk, rfl⟩ := use?_eq_hit hu
  cases steps hs with
  | hit hr | hitLate hr => exact Shared.onlyHit_hit hp hr
  | _ => cases hu

theorem Call.onlyHit_of_takes {c : Conduct} {s s' : Shared} {x x' : Call}
    (hs : x.step c s = some (x', s')) (h : x.takes x' = true) : ∃ taken, s.OnlyHit s' [] taken := by
  unfold takes at h
  split at h
  · cases steps hs with
    | take hr => exact ⟨_, Shared.onlyHit_take rfl hr⟩
    | stage hq => cases hq
  · cases h

namespace Traffic
variable {t u v : Traffic} {log : List Tick}

theorem step_hitting {m : Move} (hp : t.shared.store.slots.Proper) (hs : t.step m = some u)
    (hx : (⟨t, m, u⟩ : Tick).hitting = true) :
    ∃ taken, t.shared.OnlyHit u.shared (⟨t, m, u⟩ : Tick).hit?.toList taken := by
  cases steps hs with
  | start => exact ⟨[], t.shared.onlyHit_refl⟩
  | @advance i conduct c c' s hi hstep =>
    simp only [Tick.hitting, Tick.hit?, Tick.takes, Tick.use?, came?_advance hi,
      went?_advance hi] at hx ⊢
    rcases hu : c.use? c' with _ | (k | k) <;> simp only [hu, Option.isSome_none, Bool.false_or] at hx
    case some.hit =>
      cases Call.steps hstep with
      | stage hq => exact ⟨[], Stage.onlyHit_of_use? hp hq hu⟩
      | _ => cases hu
    -- no hit, so a handle is made
    all_goals exact Call.onlyHit_of_takes hstep hx
  | reference | refuse | share | release | closeReader | resetCounters => cases hx

theorem onlyHit_of_hits (hp : t.shared.store.slots.Proper) (h : Records t log v)
    (hh : ∀ x ∈ log, x.hitting = true) :
    ∃ taken, t.shared.OnlyHit v.shared (hitKeys log) taken := by
  induction h with
  | nil => exact ⟨[], t.shared.onlyHit_refl⟩
  | @snoc log u v m h hs ih =>
    obtain ⟨taken, hbefore⟩ := ih fun x hx ↦ hh x (List.mem_append_left _ hx)
    obtain ⟨last, hlast⟩ :=
      step_hitting (h.proper hp) hs (hh _ (List.mem_append_right _ List.mem_cons_self))
    refine ⟨taken ++ last, ?_⟩
    have hkeys : hitKeys (log ++ [⟨u, m, v⟩]) = hitKeys log ++ (⟨u, m, v⟩ : Tick).hit?.toList := by
      rw [hitKeys, hitKeys, List.filterMap_append]
      rcases hx : (⟨u, m, v⟩ : Tick).hit? with _ | k <;> simp [hx]
    rw [hkeys]
    exact hbefore.trans hlast

end Traffic
end ReadCache
