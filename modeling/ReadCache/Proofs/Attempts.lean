import ReadCache.Proofs.Loading
import ReadCache.Proofs.Origins
import ReadCache.Proofs.Overcounting
import ReadCache.Proofs.Recency

namespace ReadCache

theorem Store.fixed_of_settings {s s' : Store} (h : s'.settings = s.settings) :
    s'.capacity = s.capacity ∧ s'.targetWeight = s.targetWeight ∧ s'.batchSize = s.batchSize := by
  simp only [capacity, targetWeight, batchSize, h, and_self]

theorem Store.batchSize_of_validate {s : Store} (h : s.settings.eviction.validate = .ok ()) :
    s.batchSize ≠ 0 := by
  simp only [EvictionPolicy.validate] at h
  split at h
  · cases h
  · split at h
    · cases h
    · exact fun hz ↦ ‹s.settings.eviction.batchSize ≠ 0› (UInt64.toNat_inj.1 hz)

theorem weight_le_weightOf {l : List (ChunkId × Resident)} {v : ChunkId × Resident} (h : v ∈ l) :
    v.2.weight ≤ weightOf l := List.le_sum_of_mem (List.mem_map_of_mem h)

namespace Engine
variable {σ : Type} {e : Engine} {c : ChunkRef} {chunk : Chunk} {s : σ}

theorem reference_of_some (hc : e.memory.chunk? c = some chunk) (hz : chunk.references ≠ 0)
    (hlt : chunk.references.toNat + 1 < UInt32.size) :
    ∃ e', reference c (e, s) = (.ok true, e', s) := by
  refine ⟨⟨e.store, (e.memory.reference c).2⟩, ?_⟩
  simp [reference, Memory.reference, hc, Chunk.reference, hz, hlt]

theorem reference_of_none (hc : e.memory.chunk? c = some chunk) (hz : chunk.references = 0) :
    reference c (e, s) = (.ok false, e, s) := by
  have hself := Memory.setChunk_self hc
  simp [reference, Memory.reference, hc, Chunk.reference, hz, hself]

theorem reference_of_full (hc : e.memory.chunk? c = some chunk)
    (hfull : chunk.references.toNat + 1 = UInt32.size) :
    ∃ e', reference c (e, s) = (.error .panic, e', s) := by
  have hz : chunk.references ≠ 0 := by
    intro hz
    rw [hz] at hfull
    exact absurd hfull (by decide)
  refine ⟨⟨e.store, (e.memory.reference c).2⟩, ?_⟩
  simp [reference, Memory.reference, hc, Chunk.reference, hz, hfull]

end Engine

namespace Access
variable {e : Engine} {k : ChunkId} {r : Reader} {roundUp : Bool} {w n left : Nat}
variable {attempts : UInt32}

def countedLoad (r : Reader) (k : ChunkId) (roundUp : Bool) : Action (Engine × Nat) Block :=
  Engine.loadBlock r r.countedRead k.position roundUp

/-- An attempt that does not find the chunk reads it. Either it gets a reference, or the chunk is
gone and the next attempt begins where all that is left was used in earlier epochs. -/
theorem attempt_load (h : e.Quiet) (hb : e.store.batchSize ≠ 0) (hk : e.store.slots.get? k = none)
    (hr : r.Reads k.position roundUp w) (attempts : UInt32) (n : Nat) :
    ∃ e' : Engine, e'.Quiet ∧ e'.Rested ∧ e'.store.settings = e.store.settings ∧
      e'.store.weightedSize ≤ max e.store.capacity.toNat e.store.targetWeight ∧
      ((w ≤ e'.store.weightedSize ∧ ∀ left, ∃ c e'',
        attempt k (countedLoad r k roundUp) attempts (left + 1) (e, n) = (.ok c, e'', n + 1)) ∨
      (e'.store.slots.get? k = none ∧
        (∀ left, attempt k (countedLoad r k roundUp) attempts (left + 1) (e, n) =
          attempt k (countedLoad r k roundUp) attempts left (e', n + 1)) ∧
        e.store.capacity.toNat < e.store.weightedSize + w ∧
        e'.store.weightedSize ≤ e.store.targetWeight ∧
        (e.Rested → e'.store.residents = [] ∧ e.store.targetWeight < w))) := by
  have hmemory : (e.request k).2.memory = e.memory := by rw [Engine.request_free hk]; rfl
  obtain ⟨b, pool, hload, rfl, hpool⟩ :=
    Engine.loadBlock_reads (e := (e.request k).2) (k := k) (hmemory ▸ h.filed) hr n
  rw [hmemory] at hload
  have hget := Engine.getOrLoadWith_free h.coherent.proper hk hload
  obtain ⟨hquiet, hrested⟩ := h.place hk b hpool
  have hbatch : (e.place k b pool).store.batchSize ≠ 0 := hb
  obtain ⟨-, hperm⟩ := Engine.residents_place h.coherent.proper hk b pool
  obtain ⟨hquiet', hclock, hset, hsub⟩ := hquiet.evictIfNeeded hbatch
  have hbound := Engine.weightedSize_evictIfNeeded_le hquiet.coherent hbatch
  have hcases := Engine.evictIfNeeded_cases hquiet hbatch (hperm.mem_iff.2 List.mem_cons_self)
  have hchunk : (e.place k b pool).memory.chunk? e.memory.chunks.size =
      some (.ofBlock b k.position) := (Memory.chunk?_adopt _ _ _ _).trans (if_pos rfl)
  generalize (e.place k b pool).evictIfNeeded = e' at *
  refine ⟨e', hquiet', ?_, hset, hbound, ?_⟩
  · intro v hv
    rw [hclock]
    exact hrested v (hsub hv)
  -- The pass has left the chunk, and a reference can be had, or it has taken the chunk out.
  rcases hcases with ⟨hkept, hc⟩ | ⟨hgone, hc, hover, hdown, hyoung⟩
  · left
    have hweight := weight_le_weightOf hkept
    rw [← hquiet'.coherent.weight] at hweight
    refine ⟨hweight, fun left ↦ ?_⟩
    obtain ⟨e'', href⟩ := Engine.reference_of_some (s := n + 1) (hc.trans hchunk)
      (by simp [Chunk.ofBlock]) (by simp [Chunk.ofBlock, UInt32.size])
    refine ⟨e.memory.chunks.size, e'', ?_⟩
    rw [attempt_succ, countedLoad, hget]
    simp only [href]
  · right
    rw [hchunk] at hc
    have href := Engine.reference_of_none (s := n + 1) hc
      (by simp [Chunk.ofBlock, Chunk.unreference])
    refine ⟨hgone, fun left ↦ ?_, hover, hdown, fun hrest ↦ hyoung fun x hx hne ↦ ?_⟩
    · rw [attempt_succ, countedLoad, hget]
      simp only [href]
    · rcases List.mem_cons.1 (hperm.mem_iff.1 hx) with rfl | hx
      · exact absurd rfl hne
      · exact hrest x hx

theorem attempt_too_large (h : e.Quiet) (hb : e.store.batchSize ≠ 0)
    (hk : e.store.slots.get? k = none) (hr : r.Reads k.position roundUp w)
    (ht : e.store.targetWeight ≤ e.store.capacity.toNat) (hw : e.store.capacity.toNat < w)
    (attempts : UInt32) (left n : Nat) :
    ∃ e', attempt k (countedLoad r k roundUp) attempts left (e, n) =
        (.error (.error (.cacheExhausted k.text attempts)), e', n + left) ∧
      (2 ≤ left ∨ (1 ≤ left ∧ e.Rested) → e'.store.residents = []) := by
  -- An attempt in vain leaves only what was used in earlier epochs, so the next one leaves nothing.
  induction left generalizing e n with
  | zero =>
    refine ⟨e, rfl, ?_⟩
    rintro (hmany | ⟨hmany, -⟩) <;> omega
  | succ left ih =>
    obtain ⟨e₁, hquiet, hrested, hset, hbound, ⟨hkept, -⟩ | ⟨hgone, hnext, -, -, hempty⟩⟩ :=
      attempt_load h hb hk hr attempts n
    · rw [Nat.max_eq_left ht] at hbound
      exact absurd (hkept.trans hbound) (Nat.not_le.2 hw)
    · obtain ⟨hc, htarget, hbatch⟩ := Store.fixed_of_settings hset
      obtain ⟨e', hlast, hrest⟩ := ih hquiet (by rwa [hbatch]) hgone (by rwa [hc, htarget])
        (by rwa [hc]) (n + 1)
      refine ⟨e', by rw [hnext, hlast, Nat.add_right_comm, Nat.add_assoc], ?_⟩
      cases left with
      | zero =>
        cases hlast
        rintro (hmany | ⟨-, hfirst⟩)
        · omega
        · exact (hempty hfirst).1
      | succ left => exact fun _ ↦ hrest (.inr ⟨by omega, hrested⟩)

theorem attempt_rested (h : e.Quiet) (hrested : e.Rested) (hb : e.store.batchSize ≠ 0)
    (hk : e.store.slots.get? k = none) (hr : r.Reads k.position roundUp w)
    (hw : w ≤ e.store.targetWeight) (attempts : UInt32) (left n : Nat) :
    ∃ c e', attempt k (countedLoad r k roundUp) attempts (left + 1) (e, n) = (.ok c, e', n + 1) := by
  obtain ⟨e₁, -, -, -, -, ⟨-, hok⟩ | ⟨-, -, -, -, hempty⟩⟩ := attempt_load h hb hk hr attempts n
  · exact hok left
  · have habove := (hempty hrested).2
    omega

theorem attempt_within_target (h : e.Quiet) (hb : e.store.batchSize ≠ 0)
    (hk : e.store.slots.get? k = none) (hr : r.Reads k.position roundUp w)
    (hw : w ≤ e.store.targetWeight) (attempts : UInt32) (left n : Nat) :
    ∃ c e' reads, attempt k (countedLoad r k roundUp) attempts (left + 2) (e, n) =
      (.ok c, e', n + reads) ∧ reads ≤ 2 := by
  obtain ⟨e₁, hquiet, hrested, hset, -, ⟨-, hok⟩ | ⟨hgone, hnext, -, -, -⟩⟩ :=
    attempt_load h hb hk hr attempts n
  · obtain ⟨c, e', hc⟩ := hok (left + 1)
    exact ⟨c, e', 1, hc, by omega⟩
  -- The second read comes upon what was used in earlier epochs only.
  · obtain ⟨-, htarget, hbatch⟩ := Store.fixed_of_settings hset
    obtain ⟨c, e', hc⟩ := attempt_rested hquiet hrested (by rwa [hbatch]) hgone hr
      (by rwa [htarget]) attempts left (n + 1)
    exact ⟨c, e', 2, (hnext _).trans hc, Nat.le_refl _⟩

theorem attempt_within_capacity (h : e.Quiet) (hb : e.store.batchSize ≠ 0)
    (hk : e.store.slots.get? k = none) (hr : r.Reads k.position roundUp w)
    (hw : w ≤ e.store.capacity.toNat) (attempts : UInt32) (left n : Nat) :
    ∃ c e' reads, attempt k (countedLoad r k roundUp) attempts (left + 3) (e, n) =
      (.ok c, e', n + reads) ∧ reads ≤ 3 := by
  obtain ⟨e₁, hquiet, hrested, hset, -, ⟨-, hok⟩ | ⟨hgone, hnext, -, -, -⟩⟩ :=
    attempt_load h hb hk hr attempts n
  · obtain ⟨c, e', hc⟩ := hok (left + 2)
    exact ⟨c, e', 1, hc, by omega⟩
  -- The second read leaves an empty table if it leaves the chunk out, and the third finds room.
  obtain ⟨hc₁, -, hb₁⟩ := Store.fixed_of_settings hset
  obtain ⟨e₂, hquiet₂, -, hset₂, -, ⟨-, hok⟩ | ⟨hgone₂, hnext₂, -, -, hempty⟩⟩ :=
    attempt_load hquiet (by rwa [hb₁]) hgone hr attempts (n + 1)
  · obtain ⟨c, e', hc⟩ := hok (left + 1)
    exact ⟨c, e', 2, (hnext _).trans hc, by omega⟩
  obtain ⟨hc₂, -, hb₂⟩ := Store.fixed_of_settings hset₂
  have hzero : e₂.store.weightedSize = 0 := by
    rw [hquiet₂.coherent.weight, (hempty hrested).1]
    rfl
  obtain ⟨e₃, -, -, -, -, ⟨-, hok⟩ | ⟨-, -, hover, -, -⟩⟩ :=
    attempt_load hquiet₂ (by rwa [hb₂, hb₁]) hgone₂ hr attempts (n + 1 + 1)
  · obtain ⟨c, e', hc⟩ := hok left
    exact ⟨c, e', 3, (hnext _).trans ((hnext₂ _).trans hc), Nat.le_refl _⟩
  · rw [hzero, hc₂, hc₁] at hover
    omega

theorem attempt_absent (h : e.Quiet) (hb : e.store.batchSize ≠ 0)
    (hk : e.store.slots.get? k = none) (hr : r.Reads k.position roundUp w)
    (hfits : e.store.targetWeight ≤ e.store.capacity.toNat) {attempts : UInt32}
    (hattempts : attempts ≠ 0) :
    (w ≤ e.store.targetWeight → 2 ≤ attempts →
      ∃ c e' reads, attempt k (countedLoad r k roundUp) attempts attempts.toNat (e, 0) =
        (.ok c, e', reads) ∧ reads ≤ 2) ∧
    (w ≤ e.store.targetWeight →
      (∀ v ∈ e.store.residents, v.2.lastAccess ≠ e.store.clock) →
      ∃ c e', attempt k (countedLoad r k roundUp) attempts attempts.toNat (e, 0) = (.ok c, e', 1)) ∧
    (w ≤ e.store.capacity.toNat → 3 ≤ attempts →
      ∃ c e' reads, attempt k (countedLoad r k roundUp) attempts attempts.toNat (e, 0) =
        (.ok c, e', reads) ∧ reads ≤ 3) ∧
    (e.store.capacity.toNat < w →
      ∃ e', attempt k (countedLoad r k roundUp) attempts attempts.toNat (e, 0) =
          (.error (.error (.cacheExhausted k.text attempts)), e', attempts.toNat) ∧
        (2 ≤ attempts → e'.store.residents = [])) := by
  have hmany {n : UInt32} (hn : n ≤ attempts) : ∃ left, attempts.toNat = left + n.toNat :=
    ⟨_, (Nat.sub_add_cancel (UInt32.le_iff_toNat_le.1 hn)).symm⟩
  refine ⟨fun hw hn ↦ ?within_target, fun hw hrested ↦ ?rested, fun hw hn ↦ ?within_capacity,
    fun hw ↦ ?too_large⟩
  case within_target =>
    obtain ⟨left, hleft⟩ := hmany hn
    obtain ⟨c, e', reads, he, hle⟩ := attempt_within_target h hb hk hr hw attempts left 0
    rw [Nat.zero_add] at he
    exact ⟨c, e', reads, hleft ▸ he, hle⟩
  case rested =>
    have hrest : e.Rested := fun v hv ↦ Nat.lt_of_le_of_ne (h.stamps v hv) (hrested v hv)
    obtain ⟨before, hbefore⟩ : ∃ before, attempts.toNat = before + 1 :=
      Nat.exists_eq_succ_of_ne_zero fun hz ↦ hattempts (UInt32.toNat_inj.1 hz)
    rw [hbefore]
    exact attempt_rested h hrest hb hk hr hw attempts before 0
  case within_capacity =>
    obtain ⟨left, hleft⟩ := hmany hn
    obtain ⟨c, e', reads, he, hle⟩ := attempt_within_capacity h hb hk hr hw attempts left 0
    rw [Nat.zero_add] at he
    exact ⟨c, e', reads, hleft ▸ he, hle⟩
  case too_large =>
    obtain ⟨e', he, hempty⟩ := attempt_too_large h hb hk hr hfits hw attempts attempts.toNat 0
    rw [Nat.zero_add] at he
    exact ⟨e', he, fun hn ↦ hempty (.inl (UInt32.le_iff_toNat_le.1 hn))⟩

section
variable {σ : Type} {resident : Resident} {chunk : Chunk}

theorem attempt_resident (hk : e.store.slots.get? k = some (.resident resident))
    (hc : e.memory.chunk? resident.chunk = some chunk) (hz : chunk.references ≠ 0)
    (hlt : chunk.references.toNat + 1 < UInt32.size) (load : Action (Engine × σ) Block)
    (attempts : UInt32) (left : Nat) (s : σ) :
    ∃ e', attempt k load attempts (left + 1) (e, s) = (.ok resident.chunk, e', s) := by
  obtain ⟨e', href⟩ := Engine.reference_of_some (s := s)
    (e := e.onStore fun s ↦ (s.touch k resident).record .hit) hc hz hlt
  refine ⟨e', ?_⟩
  rw [attempt_succ, Engine.getOrLoadWith, Engine.request_resident hk]
  simp only [href]

theorem attempt_full (hk : e.store.slots.get? k = some (.resident resident))
    (hc : e.memory.chunk? resident.chunk = some chunk)
    (hfull : chunk.references.toNat + 1 = UInt32.size) (load : Action (Engine × σ) Block)
    (attempts : UInt32) (left : Nat) (s : σ) :
    ∃ e', attempt k load attempts (left + 1) (e, s) = (.error .panic, e', s) := by
  obtain ⟨e', href⟩ := Engine.reference_of_full (s := s)
    (e := e.onStore fun s ↦ (s.touch k resident).record .hit) hc hfull
  refine ⟨e', ?_⟩
  rw [attempt_succ, Engine.getOrLoadWith, Engine.request_resident hk]
  simp only [href]

theorem attempt_unreferenced (hp : e.store.slots.Proper)
    (hk : e.store.slots.get? k = some (.resident resident))
    (hc : e.memory.chunk? resident.chunk = some chunk) (hz : chunk.references = 0)
    (load : Action (Engine × σ) Block) (attempts : UInt32) (left : Nat) (s : σ) :
    ∃ e', attempt k load attempts left (e, s) =
      (.error (.error (.cacheExhausted k.text attempts)), e', s) := by
  induction left generalizing e resident with
  | zero => exact ⟨e, rfl⟩
  | succ left ih =>
    -- A hit leaves the chunk where it is, and no reference is made.
    have hhit : ∃ r, r.chunk = resident.chunk ∧
        (e.store.touch k resident).slots.get? k = some (.resident r) := by
      unfold Store.touch
      split
      · refine ⟨{ resident with lastAccess := e.store.clock }, rfl, ?_⟩
        exact ShardedMap.get?_insert_self hp.shards_pos _ _
      · exact ⟨resident, rfl, hk⟩
    obtain ⟨r, hr, hk'⟩ := hhit
    obtain ⟨e', hrest⟩ := ih (e := e.onStore fun s ↦ (s.touch k resident).record .hit)
      (Store.proper_touch hp resident) hk' (hr ▸ hc)
    refine ⟨e', ?_⟩
    rw [attempt_succ, Engine.getOrLoadWith, Engine.request_resident hk]
    simp only [Engine.reference_of_none
      (e := e.onStore fun s ↦ (s.touch k resident).record .hit) hc hz, hrest]

end

end Access

namespace Access

def countedRebuffer (a : Access) (position : UInt64) (e : Engine) :
    Except Failure ChunkRef × Engine × Nat := a.rebuffer a.reader.countedRead position (e, 0)

theorem countedRebuffer_eq {a : Access} {attempts : UInt32} (ha : a.mode = .cached attempts)
    (position : UInt64) (e : Engine) :
    a.countedRebuffer position e = attempt (a.chunkId position)
      (countedLoad a.reader (a.chunkId position) e.store.settings.roundUp) attempts attempts.toNat
      (e, 0) := by
  simp only [countedRebuffer, rebuffer, ha]
  rfl

end Access

namespace Traffic
variable {t u : Traffic} {log : List Tick}

/-- Between the calls of a sequential run, with no load under way, where the target is within the
capacity. -/
structure Calm (t : Traffic) (log : List Tick) (u : Traffic) : Prop where
  initial : t.Initial
  filed : t.shared.memory.pool.Filed
  valid : t.shared.store.settings.eviction.validate = .ok ()
  fits : t.shared.store.targetWeight ≤ t.shared.store.capacity.toNat
  inTurn : t.InTurn log u
  between : u.Between
  still : ∀ k p, u.shared.store.slots.get? k ≠ some (.loading p)

theorem Calm.settings (h : Calm t log u) : u.shared.store.settings = t.shared.store.settings :=
  settings_of_reaches (weighed_of_initial h.initial) h.inTurn.records.reachable

theorem Calm.quiet (h : Calm t log u) : u.shared.engine.Quiet := by
  have hreach : t.Reaches (fun _ ↦ True) u := h.inTurn.records.reachable
  have hw := weighed_of_reaches (weighed_of_initial h.initial) hreach
  have hexact := exact_of_records h.initial h.inTurn.records
  refine ⟨⟨hw.proper, ?weight⟩, h.inTurn.records.kept h.initial, ?stamps, h.still,
    filed_of_reaches h.filed hreach⟩
  case weight =>
    rw [hw.weight, owes_of_between h.between, Nat.add_zero, Store.residentWeight_eq]
  case stamps =>
    intro v hv
    have hget := (Store.mem_residents hw.proper).1 hv
    have hlast := hexact.stamp v.1 _ (Store.stamp?_eq_some.2 ⟨v.2, hget, rfl⟩)
    rw [hlast, hexact.clock]
    exact lastUse_le v.1 log

theorem references_of_resident (ht : t.Initial) (h : t.Reaches Modest u) {k : ChunkId}
    {r : Resident} (hk : u.shared.store.slots.get? k = some (.resident r)) :
    ∃ chunk, u.shared.memory.chunk? r.chunk = some chunk ∧ chunk.references ≠ 0 ∧
      chunk.references.toNat ≤ u.handlesOn r.chunk + 1 := by
  have ha := accounted_of_reaches (accounted_of_initial ht) h
  obtain ⟨chunk, hc, hz⟩ := referenced_of_resident ha ((Store.mem_residents ha.proper).2 hk)
  have hcount := ha.ledger.counts.count r.chunk chunk hc
  rw [count_refs ha] at hcount
  refine ⟨chunk, hc, hz, hcount.le.trans ?_⟩
  split <;> omega

/-- There never were more handles than a count can tell, and one more on `c` is not too many. -/
structure Room (log : List Tick) (u : Traffic) (c : ChunkRef) : Prop where
  modest : ∀ x ∈ log, x.after.Modest
  one : u.handlesOn c + 2 < UInt32.size

theorem Calm.slot_of_unstamped (h : Calm t log u) {k : ChunkId}
    (hs : u.shared.store.stamp? k = none) : u.shared.store.slots.get? k = none := by
  rcases hget : u.shared.store.slots.get? k with _ | (resident | p)
  · rfl
  · rw [Store.stamp?_eq_some.2 ⟨resident, hget, rfl⟩] at hs
    cases hs
  · exact absurd hget (h.still k p)

theorem attempt_of_room (ht : t.Initial) (h : Records t log u) {k : ChunkId} {r : Resident}
    (hk : u.shared.store.slots.get? k = some (.resident r)) (hroom : Room log u r.chunk) {σ : Type}
    (load : Action (Engine × σ) Block) {attempts : UInt32} (hattempts : attempts ≠ 0) (s : σ) :
    ∃ e, Access.attempt k load attempts attempts.toNat (u.shared.engine, s) = (.ok r.chunk, e, s) := by
  obtain ⟨before, hbefore⟩ : ∃ before, attempts.toNat = before + 1 :=
    Nat.exists_eq_succ_of_ne_zero fun hz ↦ hattempts (UInt32.toNat_inj.1 hz)
  obtain ⟨chunk, hchunk, hz, hle⟩ := references_of_resident ht (h.reaches hroom.modest) hk
  have hlt : chunk.references.toNat + 1 < UInt32.size :=
    Nat.lt_of_le_of_lt (Nat.succ_le_succ hle) hroom.one
  rw [hbefore]
  exact Access.attempt_resident hk hchunk hz hlt load attempts before s

theorem Calm.weight_le_capacity (h : Calm t log u)
    (hfits : u.shared.store.targetWeight ≤ u.shared.store.capacity.toNat) {k : ChunkId}
    {r : Resident} (hk : u.shared.store.slots.get? k = some (.resident r)) :
    r.weight ≤ u.shared.store.capacity.toNat := by
  have hcoherent := h.quiet.coherent
  have hle := weight_le_weightOf ((Store.mem_residents hcoherent.proper).2 hk)
  have hbounded : u.shared.Bounded := bounded_of_nested h.initial
    (Store.batchSize_of_validate h.valid) (nested_of_inTurn h.inTurn) h.between
  rw [Shared.Bounded, Nat.max_eq_left hfits] at hbounded
  rw [← hcoherent.weight] at hle
  exact hle.trans hbounded

/-- What a read through the table comes to, between the calls of a sequential run with no load under
way, where the target is within the capacity. A chunk that is resident is not read, as long as there
is room for one more handle on it. One within the target is read twice at most, and once if no other
was used in this epoch; one within the capacity three times at most; and one above it as often as
there are attempts, all in vain, after which nothing is resident. So with three attempts the read
succeeds just for chunks within the capacity. -/
theorem cached_read_outcome (h : Calm t log u) {a : Access} {attempts : UInt32}
    (ha : a.mode = .cached attempts) (hattempts : attempts ≠ 0) {position : UInt64} {w : Nat}
    (hreads : a.reader.Reads (a.aligned position) u.shared.store.settings.roundUp w) :
    (∀ r, u.shared.store.slots.get? (a.chunkId position) = some (.resident r) →
      Room log u r.chunk →
      ∃ e, a.countedRebuffer position u.shared.engine = (.ok r.chunk, e, 0)) ∧
    (u.shared.store.stamp? (a.chunkId position) = none →
      (w ≤ u.shared.store.targetWeight → 2 ≤ attempts →
        ∃ c e reads, a.countedRebuffer position u.shared.engine = (.ok c, e, reads) ∧ reads ≤ 2) ∧
      (w ≤ u.shared.store.targetWeight →
        (∀ v ∈ u.shared.store.residents, v.2.lastAccess ≠ u.shared.store.clock) →
        ∃ c e, a.countedRebuffer position u.shared.engine = (.ok c, e, 1)) ∧
      (u.shared.store.targetWeight < w → w ≤ u.shared.store.capacity.toNat → 3 ≤ attempts →
        ∃ c e reads, a.countedRebuffer position u.shared.engine = (.ok c, e, reads) ∧ reads ≤ 3) ∧
      (u.shared.store.capacity.toNat < w →
        ∃ e, a.countedRebuffer position u.shared.engine =
            (.error (.error (.cacheExhausted (a.chunkId position).text attempts)), e,
              attempts.toNat) ∧
          (2 ≤ attempts → e.store.residents = []))) ∧
    (3 ≤ attempts →
      (∀ r, u.shared.store.slots.get? (a.chunkId position) = some (.resident r) →
        r.weight = w ∧ Room log u r.chunk) →
      ((∃ c, (a.countedRebuffer position u.shared.engine).1 = .ok c) ↔
        w ≤ u.shared.store.capacity.toNat)) := by
  obtain ⟨hc, ht, hb⟩ := Store.fixed_of_settings h.settings
  have hbatch : u.shared.store.batchSize ≠ 0 := by
    rw [hb]
    exact Store.batchSize_of_validate h.valid
  have hfits : u.shared.store.targetWeight ≤ u.shared.store.capacity.toNat := by
    rw [hc, ht]
    exact h.fits
  rw [Access.countedRebuffer_eq ha]
  generalize hk : a.chunkId position = k at *
  replace hreads : a.reader.Reads k.position u.shared.store.settings.roundUp w := hk ▸ hreads
  generalize a.reader = reader at *
  have hresident (r : Resident) (hr : u.shared.store.slots.get? k = some (.resident r))
      (hroom : Room log u r.chunk) := attempt_of_room h.initial h.inTurn.records hr hroom
    (Access.countedLoad reader k u.shared.store.settings.roundUp) hattempts 0
  have habsent (hs : u.shared.store.stamp? k = none) :=
    Access.attempt_absent h.quiet hbatch (h.slot_of_unstamped hs) hreads hfits hattempts
  refine ⟨hresident, fun hs ↦ ?absent, fun hn hslot ↦ ⟨?within, fun hw ↦ ?succeeds⟩⟩
  case absent =>
    obtain ⟨hsecond, honce, hthird, hnever⟩ := habsent hs
    exact ⟨hsecond, honce, fun _ ↦ hthird, hnever⟩
  case within =>
    rintro ⟨c, hok⟩
    by_contra hw
    rcases hs : u.shared.store.stamp? k with _ | n
    · obtain ⟨e, he, -⟩ := (habsent hs).2.2.2 (Nat.lt_of_not_le hw)
      rw [he] at hok
      cases hok
    · obtain ⟨r, hget, -⟩ := Store.stamp?_eq_some.1 hs
      have hle := h.weight_le_capacity hfits hget
      rw [(hslot r hget).1] at hle
      exact hw hle
  case succeeds =>
    rcases hs : u.shared.store.stamp? k with _ | n
    · obtain ⟨c, e, reads, he, -⟩ := (habsent hs).2.2.1 hw hn
      exact ⟨c, congrArg Prod.fst he⟩
    · obtain ⟨r, hget, -⟩ := Store.stamp?_eq_some.1 hs
      obtain ⟨e, he⟩ := hresident r hget (hslot r hget).2
      exact ⟨r.chunk, congrArg Prod.fst he⟩

theorem exists_calm (settings : Store.Settings) (moves : List Move) (P : List Tick → Traffic → Prop)
    [∀ log u, Decidable (P log u)]
    (h : ((create? settings ChunkId.hash).bind (·.record moves)).any fun r ↦
      r.2.shared.store.settings.eviction.validate = .ok () ∧
        r.2.shared.store.targetWeight ≤ r.2.shared.store.capacity.toNat ∧
        (∀ x ∈ r.1, x.inTurn = true) ∧ (∀ c ∈ r.2.calls, c.waiting = true) ∧
        (∀ v ∈ r.2.shared.store.slots.toList, v.2.resident?.isSome) ∧ P r.1 r.2) :
    ∃ t u log, Calm t log u ∧ P log u := by
  obtain ⟨⟨log, u⟩, hrun, hprops⟩ := (Option.any_eq_true _ _).1 h
  obtain ⟨t, ht, hrun⟩ := Option.bind_eq_some_iff.1 hrun
  obtain ⟨hvalid, hfits, hturns, hbetween, hloaded, hp⟩ := of_decide_eq_true hprops
  have hrec := records_of_record hrun
  have hset := settings_of_reaches (weighed_of_initial (initial_of_create? ht)) hrec.reachable
  obtain ⟨hc, htarget, -⟩ := Store.fixed_of_settings hset
  rw [hset] at hvalid
  rw [hc, htarget] at hfits
  refine ⟨t, u, log, ⟨initial_of_create? ht, filed_of_create? ht, hvalid, hfits, ⟨hrec, hturns⟩,
    hbetween, fun k p hk ↦ ?_⟩, hp⟩
  cases hloaded _ (ShardedMap.mem_of_get?_some hk)

theorem reads_five (mode : Access.Mode) :
    (smallFile "b" 5).Reads (Access.aligned ⟨smallFile "b" 5, mode, []⟩ 2) false 5 := by
  have hstart : Access.aligned ⟨smallFile "b" 5, mode, []⟩ 2 = 0 :=
    (by decide : (2 : UInt64) &&& ~~~(8 - 1) = 0)
  have hsize : (smallFile "b" 5).loadSize? 0 false = some 5 := by decide
  rw [hstart]
  exact Reader.reads_of_complete (ByteSource.complete_ofMemory "b" (Reader.zeros 5)) rfl rfl rfl
    (by decide) rfl hsize rfl (by decide)

/-- Room for 10 bytes, of which 6 are taken by a chunk that was hit in this epoch, and 5 are
wanted. -/
theorem cached_read_outcome_of_two_files :
    ∃ (t u : Traffic) (log : List Tick), Calm t log u ∧
      (∃ v ∈ u.shared.store.residents, v.2.lastAccess = u.shared.store.clock) ∧
      ((∃ c, (Access.countedRebuffer ⟨smallFile "b" 5, .cached 3, []⟩ 2 u.shared.engine).1 = .ok c) ↔
        5 ≤ u.shared.store.capacity.toNat) ∧
      ∃ c e reads, Access.countedRebuffer ⟨smallFile "b" 5, .cached 3, []⟩ 2 u.shared.engine =
        (.ok c, e, reads) ∧ reads ≤ 2 := by
  let a : Access := ⟨smallFile "b" 5, .cached 3, []⟩
  obtain ⟨t, u, log, hcalm, hnone, htied, hround, hsmall⟩ :=
    exists_calm tight (loadSmall 0 "a" 6 8 ++ loadSmall 1 "a" 6 1)
      (fun _ u ↦ u.shared.store.stamp? (a.chunkId 2) = none ∧
        (∃ v ∈ u.shared.store.residents, v.2.lastAccess = u.shared.store.clock) ∧
        u.shared.store.settings.roundUp = false ∧ 5 ≤ u.shared.store.targetWeight)
      (by decide +kernel)
  have hreads : a.reader.Reads (a.aligned 2) u.shared.store.settings.roundUp 5 := by
    rw [hround]
    exact reads_five (.cached 3)
  obtain ⟨-, habsent, honly⟩ := cached_read_outcome hcalm (a := a) rfl (by decide) hreads
  refine ⟨t, u, log, hcalm, htied, honly (by decide) fun r hr ↦ ?_,
    (habsent hnone).1 hsmall (by decide)⟩
  rw [Store.stamp?_eq_some.2 ⟨r, hr, rfl⟩] at hnone
  cases hnone

theorem exists_shared_resident (n : Nat) :
    ∃ (t u : Traffic) (log : List Tick) (r : Resident) (chunk : Chunk), Calm t log u ∧
      u.shared.store.slots.get? ((smallFile "a" 6).chunkId 0) = some (.resident r) ∧
      u.handlesOn r.chunk = n + 1 ∧ u.shared.memory.chunk? r.chunk = some chunk ∧
      chunk.references = .ofNat (n + 2) := by
  obtain ⟨t, u, log, hcalm, hslot, hhandles, href⟩ :=
    exists_calm tight (loadSmall 0 "a" 6 8 ++ [.reference 0])
      (fun _ u ↦ u.shared.store.slots.get? ((smallFile "a" 6).chunkId 0) =
          some (.resident ⟨0, 6, 0⟩) ∧ u.shared.handles = [⟨0, none⟩] ∧
        (u.shared.memory.chunk? 0).map Chunk.references = some 2) (by decide +kernel)
  obtain ⟨shares, chunk, hshares, hmoves, hmany, hc, hcount⟩ := exists_shares hhandles href n
  have hturns : ∀ x ∈ log ++ shares, x.inTurn = true := by
    intro x hx
    rcases List.mem_append.1 hx with hx | hx
    · exact hcalm.inTurn.turns x hx
    · obtain ⟨hmove, hcalls⟩ := hmoves x hx
      simp only [Tick.inTurn, hmove, hcalls]
      exact List.all_eq_true.2 hcalm.between
  refine ⟨t, u.shareMany ⟨0, none⟩ n, log ++ shares, ⟨0, 6, 0⟩, chunk, ?_, hslot, hmany, hc, hcount⟩
  exact ⟨hcalm.initial, hcalm.filed, hcalm.valid, hcalm.fits,
    ⟨hcalm.inTurn.records.append hshares, hturns⟩, hcalm.between, hcalm.still⟩

/-- No attempts count as one. One handle more than a count can tell is refused by all means, and a
chunk whose count has come round to zero is found three times in vain. -/
theorem cached_read_refused :
    (∃ (t u : Traffic) (log : List Tick) (a : Access) (e : Engine), Calm t log u ∧
      Access.cached? (smallFile "b" 5) 0 = .ok a ∧
      a.reader.Reads (a.aligned 2) u.shared.store.settings.roundUp 5 ∧
      u.shared.store.slots.get? (a.chunkId 2) = none ∧ u.shared.store.capacity.toNat < 5 ∧
      a.countedRebuffer 2 u.shared.engine =
        (.error (.error (.cacheExhausted (a.chunkId 2).text 1)), e, 1)) ∧
    (∃ (t u : Traffic) (log : List Tick) (r : Resident) (e : Engine), Calm t log u ∧
      u.shared.store.slots.get? ((smallFile "a" 6).chunkId 0) = some (.resident r) ∧
      u.handlesOn r.chunk = UInt32.size - 2 ∧
      Access.countedRebuffer ⟨smallFile "a" 6, .cached 3, []⟩ 2 u.shared.engine =
        (.error .panic, e, 0)) ∧
    ∃ (t u : Traffic) (log : List Tick) (r : Resident) (e : Engine), Calm t log u ∧
      u.shared.store.slots.get? ((smallFile "a" 6).chunkId 0) = some (.resident r) ∧
      u.handlesOn r.chunk = UInt32.size - 1 ∧
      Access.countedRebuffer ⟨smallFile "a" 6, .cached 3, []⟩ 2 u.shared.engine =
        (.error (.error (.cacheExhausted ((smallFile "a" 6).chunkId 0).text 3)), e, 0) := by
  refine ⟨?none, ?full, ?wrapped⟩
  case none =>
    let a : Access := ⟨smallFile "b" 5, .cached 1, []⟩
    obtain ⟨t, u, log, hcalm, hround, hslot, hfits, hfew, hbatch⟩ :=
      exists_calm { tight with capacity := 4 } []
        (fun _ u ↦ u.shared.store.settings.roundUp = false ∧
          u.shared.store.slots.get? (a.chunkId 2) = none ∧
          u.shared.store.targetWeight ≤ u.shared.store.capacity.toNat ∧
          u.shared.store.capacity.toNat < 5 ∧ u.shared.store.batchSize ≠ 0) (by decide +kernel)
    have hreads : a.reader.Reads (a.aligned 2) u.shared.store.settings.roundUp 5 := by
      rw [hround]
      exact reads_five (.cached 1)
    obtain ⟨e, he, -⟩ :=
      Access.attempt_too_large hcalm.quiet hbatch hslot hreads hfits hfew 1 1 0
    refine ⟨t, u, log, a, e, hcalm, rfl, hreads, hslot, hfew, ?_⟩
    exact (Access.countedRebuffer_eq rfl 2 u.shared.engine).trans he
  case full =>
    obtain ⟨n, hn⟩ : ∃ n, n + 3 = UInt32.size := ⟨UInt32.size - 3, by decide⟩
    obtain ⟨t, u, log, r, chunk, hcalm, hslot, hmany, hc, hcount⟩ := exists_shared_resident n
    have hfull : chunk.references.toNat + 1 = UInt32.size := by
      rw [hcount, UInt32.toNat_ofNat_of_lt' (by omega), ← hn]
    obtain ⟨e, he⟩ := Access.attempt_full hslot hc hfull
      (Access.countedLoad (smallFile "a" 6) ((smallFile "a" 6).chunkId 0)
        u.shared.store.settings.roundUp) 3 2 0
    refine ⟨t, u, log, r, e, hcalm, hslot, hmany.trans (by omega), ?_⟩
    exact (Access.countedRebuffer_eq rfl 2 u.shared.engine).trans he
  case wrapped =>
    obtain ⟨n, hn⟩ : ∃ n, n + 2 = UInt32.size := ⟨UInt32.size - 2, by decide⟩
    obtain ⟨t, u, log, r, chunk, hcalm, hslot, hmany, hc, hcount⟩ := exists_shared_resident n
    have hzero : chunk.references = 0 := hcount.trans (UInt32.ofNat_eq_zero hn)
    obtain ⟨e, he⟩ := Access.attempt_unreferenced hcalm.quiet.coherent.proper hslot hc hzero
      (Access.countedLoad (smallFile "a" 6) ((smallFile "a" 6).chunkId 0)
        u.shared.store.settings.roundUp) 3 3 0
    refine ⟨t, u, log, r, e, hcalm, hslot, hmany.trans (by omega), ?_⟩
    exact (Access.countedRebuffer_eq rfl 2 u.shared.engine).trans he

end Traffic
end ReadCache
