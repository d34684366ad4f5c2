import ReadCache.Proofs.FailedLoads
import ReadCache.Proofs.Hits
import ReadCache.Proofs.Overcounting

namespace ReadCache

namespace Store
variable {s s' : Store}

theorem SameTable.get? (h : s.SameTable s') (k : ChunkId) : s'.slots.get? k = s.slots.get? k := by
  rw [h]

theorem SameTable.record (h : s.SameTable s') (event event' : Event) :
    (s.record event).SameTable (s'.record event') := by
  rw [SameTable, h]
  rfl

theorem SameTable.touch (h : s.SameTable s') (k : ChunkId) (r : Resident) :
    (s.touch k r).SameTable (s'.touch k r) := by
  rw [SameTable, h]
  simp only [Store.touch]
  split <;> rfl

theorem SameTable.owns (h : s.SameTable s') (k : ChunkId) (t : Ticket) :
    s'.owns k t = s.owns k t := by
  rw [Store.owns, Store.owns, h.get?]

theorem SameTable.settle (h : s.SameTable s') (k : ChunkId) (t : Ticket) (c : ChunkRef)
    (weight : Nat) : (s.settle k t c weight).2.SameTable (s'.settle k t c weight).2 := by
  simp only [Store.settle, h.owns]
  split
  · rw [SameTable, h]
  · exact h

theorem SameTable.clearLoad (h : s.SameTable s') (k : ChunkId) (t : Ticket) :
    (s.clearLoad k t).SameTable (s'.clearLoad k t) := by
  simp only [Store.clearLoad, h.owns]
  split
  · rw [SameTable, h]
  · exact h

theorem SameTable.publish (h : s.SameTable s') (t : Ticket) (result : Except Error ChunkRef) :
    (s.publish t result).SameTable (s'.publish t result) := by
  rw [SameTable, h]
  rfl

theorem SameTable.detachIf (h : s.SameTable s') (k : ChunkId) (c : ChunkRef) :
    (s'.detachIf k c).1 = (s.detachIf k c).1 ∧
      (s.detachIf k c).2.SameTable (s'.detachIf k c).2 := by
  simp only [Store.detachIf, h.get?]
  split
  · split
    · exact ⟨rfl, by rw [SameTable, h]⟩
    · exact ⟨rfl, h⟩
  · exact ⟨rfl, h⟩

theorem SameTable.discount (h : s.SameTable s') (r : Resident) :
    (s.discount r).SameTable (s'.discount r) := by
  rw [SameTable, h]
  rfl

theorem SameTable.remove (h : s.SameTable s') (k : ChunkId) :
    (s'.remove k).1 = (s.remove k).1 ∧ (s.remove k).2.SameTable (s'.remove k).2 := by
  have hout : (s.detach k).2.SameTable (s'.detach k).2 := by
    rw [SameTable, h]
    rfl
  simp only [Store.remove, Store.detach, h.get?] at hout ⊢
  rcases s.slots.get? k with _ | (r | t)
  · exact ⟨rfl, hout⟩
  · exact ⟨rfl, hout.discount r⟩
  · exact ⟨rfl, hout⟩

end Store

namespace Engine

/-- The same table, and as many chunks were ever loaded. -/
structure Mirrors (e e' : Engine) : Prop where
  table : e.store.SameTable e'.store
  chunks : e'.memory.chunks.size = e.memory.chunks.size

variable {e e' : Engine}

theorem Mirrors.retire (h : e.Mirrors e') (c : ChunkRef) (cause : RemovalCause) :
    (e.retire c cause).Mirrors (e'.retire c cause) where
  table := h.table.record _ _
  chunks := by simp only [Engine.retire, Memory.size_unreference, h.chunks]

theorem Mirrors.request (h : e.Mirrors e') (k : ChunkId) :
    (e'.request k).1 = (e.request k).1 ∧ (e.request k).2.Mirrors (e'.request k).2 := by
  have hslot := h.table.get? k
  rcases hk : e.store.slots.get? k with _ | (r | t) <;> rw [hk] at hslot
  · have hresults : e'.store.results = e.store.results := by rw [h.table]
    rw [request_free hk, request_free hslot, hresults]
    refine ⟨rfl, ?_, h.chunks⟩
    simp only [onStore, Store.SameTable]
    rw [h.table]
  · rw [request_resident hk, request_resident hslot]
    exact ⟨rfl, (h.table.touch k r).record _ _, h.chunks⟩
  · rw [request_loading hk, request_loading hslot]
    exact ⟨rfl, h.table.record _ _, h.chunks⟩

theorem Mirrors.evict (h : e.Mirrors e') (k : ChunkId) (c : ChunkRef) :
    (e'.evict k c).1 = (e.evict k c).1 ∧ (e.evict k c).2.Mirrors (e'.evict k c).2 := by
  obtain ⟨hfound, htable⟩ := h.table.detachIf k c
  unfold Engine.evict
  rcases hd : e.store.detachIf k c with ⟨_ | r, store⟩ <;>
    rcases hd' : e'.store.detachIf k c with ⟨found, store'⟩ <;>
    rw [hd, hd'] at hfound htable <;> cases hfound
  · exact ⟨rfl, htable, h.chunks⟩
  · have hless : Mirrors { e with store := store.discount r } { e' with store := store'.discount r } :=
      ⟨htable.discount r, h.chunks⟩
    exact ⟨rfl, hless.retire r.chunk .size⟩

theorem Mirrors.evictBatch (h : e.Mirrors e') (target : Nat) (batch : List (ChunkId × Resident)) :
    (e'.evictBatch target batch).1 = (e.evictBatch target batch).1 ∧
      (e.evictBatch target batch).2.Mirrors (e'.evictBatch target batch).2 := by
  induction batch generalizing e e' with
  | nil => exact ⟨rfl, h⟩
  | cons v batch ih =>
    have hweight : e'.store.weightedSize = e.store.weightedSize := by rw [h.table]
    obtain ⟨hsame, hafter⟩ := h.evict v.1 v.2.chunk
    obtain ⟨hn, hrest⟩ := ih hafter
    by_cases hw : e.store.weightedSize ≤ target
    · simpa only [Engine.evictBatch, hweight, hw, if_true, true_and] using h
    · simp only [Engine.evictBatch, hweight, hw, if_false, hsame, hn, true_and]
      exact hrest

theorem Mirrors.evictDown (h : e.Mirrors e') (target rounds : Nat) :
    (evictDown target rounds e).Mirrors (evictDown target rounds e') := by
  induction rounds generalizing e e' with
  | zero => exact h
  | succ rounds ih =>
    have hweight : e'.store.weightedSize = e.store.weightedSize := by rw [h.table]
    have hcand : e'.store.candidates = e.store.candidates := by rw [h.table]; rfl
    by_cases hw : e.store.weightedSize ≤ target
    · simpa only [Engine.evictDown, hweight, hw, if_true] using h
    · obtain ⟨hn, hbatch⟩ := h.evictBatch target e.store.candidates
      simp only [Engine.evictDown, hweight, hw, if_false, hcand]
      rcases hb : e.evictBatch target e.store.candidates with ⟨_ | n, f⟩ <;>
        rcases hb' : e'.evictBatch target e.store.candidates with ⟨n', f'⟩ <;>
        rw [hb, hb'] at hn hbatch <;> cases hn
      · exact hbatch
      · exact ih hbatch

theorem Mirrors.evictIfNeeded (h : e.Mirrors e') : e.evictIfNeeded.Mirrors e'.evictIfNeeded := by
  have hsize : e'.store.size = e.store.size := by rw [h.table]; rfl
  have htarget : e'.store.targetWeight = e.store.targetWeight := by rw [h.table]; rfl
  have hcapacity : e'.store.capacity = e.store.capacity := by rw [h.table]; rfl
  have hweight : e'.store.weightedSize = e.store.weightedSize := by rw [h.table]
  simp only [Engine.evictIfNeeded, hsize, htarget, hcapacity, hweight]
  split
  · exact h
  · exact h.evictDown _ _

theorem Mirrors.settled (h : e.Mirrors e') (k : ChunkId) (t : Ticket) (b : Block) :
    (e.settled k t b).Mirrors (e'.settled k t b) where
  table := by
    have hrecord := h.table.record (.loaded 0) (.loaded 0)
    have hchunk : (e'.arrive k b).1 = (e.arrive k b).1 := h.chunks
    simp only [Engine.settled, hchunk]
    exact (hrecord.settle k t (e.arrive k b).1 b.capacity).publish t _
  chunks := by
    have hsize (e : Engine) : (e.settled k t b).memory.chunks.size = e.memory.chunks.size + 1 :=
      Array.size_push _
    rw [hsize, hsize, h.chunks]

theorem Mirrors.land (h : e.Mirrors e') (k : ChunkId) (t : Ticket) (b : Block) :
    (e'.land k t b).1 = (e.land k t b).1 ∧ (e.land k t b).2.Mirrors (e'.land k t b).2 := by
  have hsettled := h.settled k t b
  have howns := h.table.owns k t
  rcases ho : e.store.owns k t with _ | _ <;> rw [ho] at howns
  · rw [land_of_lost ho, land_of_lost howns, h.chunks]
    exact ⟨rfl, hsettled.retire _ _⟩
  · rw [land_of_owns ho, land_of_owns howns]
    exact ⟨h.chunks, hsettled.evictIfNeeded⟩

theorem Mirrors.failLoad (h : e.Mirrors e') (k : ChunkId) (t : Ticket) (error : Error) :
    (e.failLoad k t error).Mirrors (e'.failLoad k t error) :=
  ⟨((h.table.record _ _).clearLoad k t).publish t _, h.chunks⟩

theorem Mirrors.abandonLoad (h : e.Mirrors e') (k : ChunkId) (t : Ticket) :
    (e.abandonLoad k t).Mirrors (e'.abandonLoad k t) :=
  ⟨(h.table.clearLoad k t).publish t _, h.chunks⟩

theorem Mirrors.receive (h : e.Mirrors e') (t : Ticket) : e'.receive t = e.receive t := by
  have hresult : e'.store.result? t = e.store.result? t := by rw [h.table]; rfl
  rw [Engine.receive, Engine.receive, hresult]

theorem Mirrors.invalidate (h : e.Mirrors e') (k : ChunkId) :
    (e'.invalidate k).1 = (e.invalidate k).1 ∧ (e.invalidate k).2.Mirrors (e'.invalidate k).2 := by
  obtain ⟨hfound, htable⟩ := h.table.remove k
  unfold Engine.invalidate
  rcases hd : e.store.remove k with ⟨_ | r, store⟩ <;>
    rcases hd' : e'.store.remove k with ⟨found, store'⟩ <;>
    rw [hd, hd'] at hfound htable <;> cases hfound
  · exact ⟨rfl, htable, h.chunks⟩
  · have hout : Mirrors { e with store } { e' with store := store' } := ⟨htable, h.chunks⟩
    exact ⟨rfl, hout.retire r.chunk .explicit⟩

theorem Mirrors.invalidateMatching (h : e.Mirrors e') (matches? : ChunkId → Bool) :
    (e'.invalidateMatching matches?).1 = (e.invalidateMatching matches?).1 ∧
      (e.invalidateMatching matches?).2.Mirrors (e'.invalidateMatching matches?).2 := by
  have hout : e'.store.residentsOn matches? = e.store.residentsOn matches? := by
    rw [h.table]
    rfl
  rw [invalidateMatching_eq, invalidateMatching_eq, hout]
  refine ⟨rfl, ?_, ?_⟩
  · simp only [purge, Store.purge, Store.SameTable, hout]
    rw [h.table]
  · simp only [purge, hout, size_unreferenceAll, h.chunks]

end Engine

inductive Memory.Use where
  | acquire (size : UInt64) (kind : BufferKind)
  | giveBack (b : Block)
  | adopt (b : Block) (position : UInt64)
  | reference (chunk : ChunkRef)
  | share (chunk : ChunkRef)
  | unreference (chunk : ChunkRef)

def Memory.use (m : Memory) : Use → Memory
  | .acquire size kind => (m.acquire size kind).2
  | .giveBack b => m.giveBack b
  | .adopt b position => (m.adopt b position).2
  | .reference chunk => (m.reference chunk).2
  | .share chunk => m.share chunk
  | .unreference chunk => m.unreference chunk

theorem Memory.size_use {m m' : Memory} (h : m'.chunks.size = m.chunks.size) (use : Use) :
    (m'.use use).chunks.size = (m.use use).chunks.size := by
  cases use with
  | acquire | giveBack => exact h
  | adopt => simp only [Memory.use, adopt, Array.size_push, h]
  | reference => simp only [Memory.use, size_reference, h]
  | share => simp only [Memory.use, size_share, h]
  | unreference => simp only [Memory.use, size_unreference, h]

/-- What can be done with a table and its memory when nothing else is in progress. -/
inductive Deed where
  | request (k : ChunkId)
  | land (k : ChunkId) (ticket : Ticket) (b : Block)
  | fail (k : ChunkId) (ticket : Ticket) (error : Error)
  | abandon (k : ChunkId) (ticket : Ticket)
  | receive (ticket : Ticket)
  | invalidate (k : ChunkId)
  | sweep (matches? : ChunkId → Bool)
  | pass
  | resetCounters
  | memory (use : Memory.Use)

/-- What the table says to it. -/
inductive Deed.Answer where
  | found (lookup : Lookup)
  | landed (chunk : ChunkRef)
  | received (result : Except Failure ChunkRef)
  | removed (was : Bool)
  | swept (n : Nat)
  | nothing

/-- What a pass comes upon, in the order in which it does, and what it takes out. -/
structure Choice where
  offered : List (ChunkId × Resident)
  evicted : List (ChunkId × Resident)

namespace Engine

def choice (e : Engine) : Choice where
  offered := e.store.byAge e.store.residents
  evicted := e.store.residents.filter fun v ↦ (e.evictIfNeeded.store.slots.get? v.1).isNone

variable {e e' : Engine}

theorem Mirrors.choice (h : e.Mirrors e') : e'.choice = e.choice := by
  have hresidents : e'.store.residents = e.store.residents := by rw [h.table]; rfl
  have horder : e'.store.byAge e.store.residents = e.store.byAge e.store.residents := by
    rw [h.table]
    rfl
  simp only [Engine.choice, hresidents, horder, h.evictIfNeeded.table.get?]

end Engine

namespace Deed

def act (e : Engine) : Deed → Answer × Engine
  | request k => ((.found (e.request k).1), (e.request k).2)
  | land k ticket b => (.landed (e.land k ticket b).1, (e.land k ticket b).2)
  | fail k ticket error => (.nothing, e.failLoad k ticket error)
  | abandon k ticket => (.nothing, e.abandonLoad k ticket)
  | receive ticket => (.received (e.receive ticket), e)
  | invalidate k => (.removed (e.invalidate k).1, (e.invalidate k).2)
  | sweep matches? => (.swept (e.invalidateMatching matches?).1, (e.invalidateMatching matches?).2)
  | pass => (.nothing, e.evictIfNeeded)
  | resetCounters => (.nothing, e.resetCounters)
  | memory use => (.nothing, e.onMemory (·.use use))

def choice? (e : Engine) : Deed → Option Choice
  | land k ticket b => if e.store.owns k ticket then some (e.settled k ticket b).choice else none
  | pass => some e.choice
  | _ => none

def run (e : Engine) : List Deed → List Answer × Engine
  | [] => ([], e)
  | d :: deeds => ((d.act e).1 :: (run (d.act e).2 deeds).1, (run (d.act e).2 deeds).2)

variable {e e' : Engine}

theorem mirrors_act (h : e.Mirrors e') (d : Deed) :
    (d.act e').1 = (d.act e).1 ∧ (d.act e).2.Mirrors (d.act e').2 := by
  cases d with
  | request k => exact ⟨congrArg Answer.found (h.request k).1, (h.request k).2⟩
  | land k t b => exact ⟨congrArg Answer.landed (h.land k t b).1, (h.land k t b).2⟩
  | fail k t error => exact ⟨rfl, h.failLoad k t error⟩
  | abandon k t => exact ⟨rfl, h.abandonLoad k t⟩
  | receive t => exact ⟨congrArg Answer.received (h.receive t), h⟩
  | invalidate k => exact ⟨congrArg Answer.removed (h.invalidate k).1, (h.invalidate k).2⟩
  | sweep matches? =>
    obtain ⟨hn, hafter⟩ := h.invalidateMatching matches?
    exact ⟨congrArg Answer.swept hn, hafter⟩
  | pass => exact ⟨rfl, h.evictIfNeeded⟩
  | resetCounters =>
    refine ⟨rfl, ?_, h.chunks⟩
    simp only [act, Engine.resetCounters, Engine.onStore, Store.SameTable]
    rw [h.table]
  | memory use => exact ⟨rfl, h.table, Memory.size_use h.chunks use⟩

theorem mirrors_run (h : e.Mirrors e') (deeds : List Deed) :
    (run e' deeds).1 = (run e deeds).1 ∧ (run e deeds).2.Mirrors (run e' deeds).2 := by
  induction deeds generalizing e e' with
  | nil => exact ⟨rfl, h⟩
  | cons d deeds ih =>
    obtain ⟨hanswer, hafter⟩ := mirrors_act h d
    obtain ⟨hrest, hend⟩ := ih hafter
    exact ⟨by rw [run, run, hanswer, hrest], hend⟩

theorem mirrors_choice? (h : e.Mirrors e') (d : Deed) : d.choice? e' = d.choice? e := by
  cases d with
  | land k t b => simp only [choice?, h.table.owns, (h.settled k t b).choice]
  | pass => exact congrArg some h.choice
  | _ => rfl

def Leads (e e' : Engine) : Prop := ∃ deeds, (run e deeds).2 = e'

theorem Leads.refl (e : Engine) : Leads e e := ⟨[], rfl⟩

theorem leads_act (d : Deed) (e : Engine) : Leads e (d.act e).2 := ⟨[d], rfl⟩

theorem Leads.trans {e'' : Engine} (h : Leads e e') (h' : Leads e' e'') : Leads e e'' := by
  obtain ⟨deeds, hdeeds⟩ := h
  induction deeds generalizing e with
  | nil =>
    obtain rfl : e = e' := hdeeds
    exact h'
  | cons d deeds ih =>
    obtain ⟨more, hmore⟩ := ih hdeeds
    exact ⟨d :: more, hmore⟩

section
variable {σ α β : Type}

/-- Whatever it comes to, a computation leads from engine to engine. -/
def Covers (f : Action (Engine × σ) α) : Prop := ∀ e s, Leads e (f (e, s)).2.1

theorem Covers.bind {f : Action (Engine × σ) α} {g : α → Action (Engine × σ) β} (hf : Covers f)
    (hg : ∀ a, Covers (g a)) : Covers (f >>= g) := by
  intro e s
  have hfirst := hf e s
  rw [Action.bind_eq]
  generalize f (e, s) = x at hfirst
  rcases x with ⟨failure | a, e', s'⟩
  · exact hfirst
  · exact hfirst.trans (hg a e' s')

theorem leads_finish (e : Engine) (k : ChunkId) (ticket : Ticket) (loaded : Except Failure Block) :
    Leads e (e.finish k ticket loaded).2 := by
  rcases loaded with (error | _ | _) | b
  · exact leads_act (.fail k ticket error) e
  · exact leads_act (.abandon k ticket) e
  · exact .refl e
  · exact leads_act (.land k ticket b) e

theorem Covers.getOrLoadWith {loader : Action (Engine × σ) Block} (hl : Covers loader)
    (k : ChunkId) : Covers (Engine.getOrLoadWith k loader) := by
  intro e s
  have hrequest : Leads e (e.request k).2 := leads_act (.request k) e
  unfold Engine.getOrLoadWith
  rcases hr : e.request k with ⟨_ | _ | ticket, e'⟩ <;> rw [hr] at hrequest <;> dsimp only <;> rw [hr]
  case hit | wait => exact hrequest
  case load =>
    have hloader := hl e' s
    dsimp only
    generalize loader (e', s) = x at hloader
    obtain ⟨loaded, e'', s'⟩ := x
    exact (hrequest.trans hloader).trans (leads_finish e'' k ticket loaded)

theorem covers_reference (chunk : ChunkRef) : Covers (Engine.reference (σ := σ) chunk) :=
  fun e _ ↦ leads_act (.memory (.reference chunk)) e

theorem covers_attempt {load : Action (Engine × σ) Block} (hl : Covers load) (k : ChunkId)
    (attempts : UInt32) (left : Nat) : Covers (Access.attempt k load attempts left) := by
  induction left with
  | zero => exact fun e _ ↦ .refl e
  | succ left ih =>
    refine (hl.getOrLoadWith k).bind fun chunk ↦ (covers_reference chunk).bind fun made ↦ ?_
    cases made with
    | true => exact fun e _ ↦ .refl e
    | false => exact ih

theorem covers_loadBlock {r : Reader} {read : PhysicalRead (Engine × σ)}
    (hread : ∀ position b e s, Leads e (read position b (e, s)).2.1) (position : UInt64)
    (roundUp : Bool) : Covers (Engine.loadBlock r read position roundUp) := by
  refine Covers.bind (fun e s ↦ ?acquire) fun b e s ↦ ?fill
  case acquire =>
    simp only [Engine.acquireFor]
    split
    · exact .refl e
    · rename_i size _
      exact leads_act (.memory (.acquire size r.bufferKind)) e
  case fill =>
    have hfill := hread position b e s
    unfold Engine.readInto
    generalize read position b (e, s) = x at hfill
    rcases x with ⟨⟨failure | _, b'⟩, e', s'⟩
    · exact hfill.trans (leads_act (.memory (.giveBack b')) e')
    · exact hfill

/-- A read at a position is a list of deeds, if what the reader does meanwhile is one. -/
theorem covers_rebuffer (a : Access) {read : PhysicalRead (Engine × σ)}
    (hread : ∀ position b e s, Leads e (read position b (e, s)).2.1) (position : UInt64) :
    Covers (a.rebuffer read position) := by
  intro e s
  unfold Access.rebuffer
  cases a.mode with
  | cached attempts => exact covers_attempt (covers_loadBlock hread _ _) _ attempts _ e s
  | direct =>
    have hload := covers_loadBlock (r := a.reader) hread (a.aligned position) false e s
    dsimp only
    generalize Engine.loadBlock a.reader read (a.aligned position) false (e, s) = x at hload
    rcases x with ⟨failure | b, e', s'⟩
    · exact hload
    · exact hload.trans (leads_act (.memory (.adopt b (a.aligned position))) e')

end

end Deed

namespace Traffic
variable {t u v v' : Traffic} {log : List Tick}

/-- Hits of the same chunks, in whatever order and however often, leave the same table. -/
theorem mirrors_of_hits {hits hits' : List Tick} (hp : u.shared.store.slots.Proper)
    (hv : Records u hits v) (hv' : Records u hits' v') (hh : ∀ x ∈ hits, x.hitting = true)
    (hh' : ∀ x ∈ hits', x.hitting = true) (hkeys : ∀ k, k ∈ hitKeys hits ↔ k ∈ hitKeys hits') :
    v.shared.engine.Mirrors v'.shared.engine := by
  obtain ⟨_, honly⟩ := onlyHit_of_hits hp hv hh
  obtain ⟨_, honly'⟩ := onlyHit_of_hits hp hv' hh'
  have htable : v.shared.store.SameTable v'.shared.store := by
    rw [honly.store, honly'.store]
    exact Store.hitAll_sameTable hkeys
  exact ⟨htable, honly'.size.trans honly.size.symm⟩

/-- In a sequential run the clock is the number of chunks that became resident so far, and the stamp
of each resident is that number at its last use. So an eviction never takes out a chunk and leaves
one that was last used in an earlier epoch, and hits that nothing comes between leave new stamps,
their number and the handles that were made, and nothing else. If the same chunks are hit in another
order, or more often, the table is the same but for that number: whatever is done from then on is
told the same and leaves the same table, and each pass in it comes upon the same chunks in the same
order and takes out the same. -/
theorem recency_of_sequential (ht : t.Initial) (h : t.InTurn log u) :
    u.shared.store.clock = entered log ∧
    (∀ k r, u.shared.store.slots.get? k = some (.resident r) →
      r.lastAccess = lastUse k log ∧ r.lastAccess ≤ u.shared.store.clock) ∧
    (∀ (i : Nat) (c : Call) (s' : Shared), u.calls[i]? = some c → c.pass? = some .compare →
      Uninterrupted Pass.step (.compare, u.shared) (.left, s') →
      ∀ k k', (u.shared.store.stamp? k).isSome → s'.store.stamp? k = none →
        (s'.store.stamp? k').isSome → lastUse k log ≤ lastUse k' log) ∧
    (∀ hits v, Records u hits v → (∀ x ∈ hits, x.hitting = true) →
      v.shared.store = u.shared.store.hitAll (hitKeys hits) ∧
      ∃ taken, u.shared.OnlyHit v.shared (hitKeys hits) taken) ∧
    ∀ hits hits' v v', Records u hits v → Records u hits' v' → (∀ x ∈ hits, x.hitting = true) →
      (∀ x ∈ hits', x.hitting = true) → (∀ k, k ∈ hitKeys hits ↔ k ∈ hitKeys hits') →
      v.shared.store.SameTable v'.shared.store ∧
        v.shared.engine.evictIfNeeded.store.SameTable v'.shared.engine.evictIfNeeded.store ∧
        ∀ deeds, (Deed.run v'.shared.engine deeds).1 = (Deed.run v.shared.engine deeds).1 ∧
          (Deed.run v.shared.engine deeds).2.store.SameTable
            (Deed.run v'.shared.engine deeds).2.store ∧
          ∀ d : Deed, d.choice? (Deed.run v'.shared.engine deeds).2 =
            d.choice? (Deed.run v.shared.engine deeds).2 := by
  have hexact := exact_of_records ht h.records
  have hp := h.records.proper ht.proper
  refine ⟨hexact.clock, ?stamps, ?passes, ?hits, ?orders⟩
  case stamps =>
    intro k r hr
    have hlast := hexact.stamp k r.lastAccess (Store.stamp?_eq_some.2 ⟨r, hr, rfl⟩)
    refine ⟨hlast, ?_⟩
    rw [hlast, hexact.clock]
    exact lastUse_le k log
  case passes =>
    intro i c s' hi hc hpass k k' hk hgone hkept
    exact pass_keeps_recent ht h hi hc hpass hk hgone hkept
  case hits =>
    intro hits v hv hh
    obtain ⟨taken, honly⟩ := onlyHit_of_hits hp hv hh
    exact ⟨honly.store, taken, honly⟩
  case orders =>
    intro hits hits' v v' hv hv' hh hh' hkeys
    have hsame := mirrors_of_hits hp hv hv' hh hh' hkeys
    refine ⟨hsame.table, hsame.evictIfNeeded.table, fun deeds ↦ ?_⟩
    obtain ⟨hanswers, hafter⟩ := Deed.mirrors_run hsame deeds
    exact ⟨hanswers, hafter.table, fun d ↦ Deed.mirrors_choice? hafter d⟩

section
variable {e : Engine} {k : ChunkId} {ticket : Ticket} {b : Block}

def loadDeeds (k : ChunkId) (ticket : Ticket) (b : Block) : List Deed :=
  [.request k, .land k ticket b]

def withLoad (e : Engine) (k : ChunkId) (ticket : Ticket) (b : Block) : Engine :=
  (e.request k).2.settled k ticket b

structure Pressed (e : Engine) : Prop where
  weight : e.store.weightedSize = weightOf e.store.residents
  batch : e.store.batchSize ≠ 0
  excess : e.store.capacity.toNat < e.store.weightedSize
  target : e.store.targetWeight < e.store.weightedSize

theorem gone_of_oldest (hp : e.store.slots.Proper)
    (howns : (e.request k).2.store.owns k ticket = true)
    (hpressed : Pressed (withLoad e k ticket b)) {v : ChunkId × Resident}
    (hv : v ∈ (withLoad e k ticket b).store.residents)
    (hold : ∀ x ∈ (withLoad e k ticket b).store.residents, x ≠ v →
      v.2.lastAccess < x.2.lastAccess) :
    (Deed.run e (loadDeeds k ticket b)).2.store.slots.get? v.1 = none := by
  have hcoherent : (withLoad e k ticket b).store.Coherent :=
    ⟨Engine.proper_settled (Engine.proper_request hp k) k ticket b, hpressed.weight⟩
  simp only [loadDeeds, Deed.run, Deed.act, Engine.land_of_owns howns]
  exact Engine.evictIfNeeded_oldest hcoherent hpressed.batch hpressed.excess hpressed.target hv hold

end

def theFour : List (ChunkId × Resident) :=
  [((smallFile "d" 2).chunkId 0, ⟨0, 2, 0⟩), ((smallFile "a" 3).chunkId 0, ⟨1, 3, 3⟩),
    ((smallFile "b" 3).chunkId 0, ⟨2, 3, 3⟩), ((smallFile "c" 4).chunkId 0, ⟨3, 4, 3⟩)]

/-- Two files are hit after a third, in one order, and in another with a handle and one hit more. A
load that is too much then takes out the third both times. -/
theorem recency_of_two_orders :
    ∃ (t u v v' : Traffic) (log hits hits' : List Tick) (deeds : List Deed), t.Initial ∧
      t.InTurn log u ∧
      Records u hits v ∧ Records u hits' v' ∧
      hitKeys hits = [(smallFile "a" 3).chunkId 0, (smallFile "b" 3).chunkId 0] ∧
      hitKeys hits' = [(smallFile "b" 3).chunkId 0, (smallFile "a" 3).chunkId 0,
        (smallFile "a" 3).chunkId 0] ∧
      v.shared.handles = [] ∧ v'.shared.handles.length = 1 ∧
      v.shared.store.SameTable v'.shared.store ∧
      (Deed.run v.shared.engine deeds).2.store.slots.get? ((smallFile "d" 2).chunkId 0) = none ∧
      (Deed.run v.shared.engine deeds).2.store.SameTable
        (Deed.run v'.shared.engine deeds).2.store := by
  let a := (smallFile "a" 3).chunkId 0
  let b := (smallFile "b" 3).chunkId 0
  let c := (smallFile "c" 4).chunkId 0
  let moves : List Move := loadSmall 0 "d" 2 8 ++ loadSmall 1 "a" 3 8 ++ loadSmall 2 "b" 3 8
  let hits : List Move := loadSmall 3 "a" 3 1 ++ loadSmall 4 "b" 3 1
  let hits' : List Move :=
    alone 3 (.rebuffer ⟨smallFile "b" 3, .cached 3, []⟩ 0 0) (.ofReader (smallFile "b" 3) 0) 2 ++
      loadSmall 4 "a" 3 1 ++ loadSmall 5 "a" 3 1
  let four : Block := ⟨7, 4, .empty⟩
  have hend : ((create? tight ChunkId.hash).bind (·.record moves)).any fun r ↦
      decide (∀ x ∈ r.1, x.inTurn = true) &&
      ((r.2.record hits).any fun q ↦ (∀ x ∈ q.1, x.hitting = true) ∧ hitKeys q.1 = [a, b] ∧
        q.2.shared.handles = [] ∧ (q.2.shared.engine.request c).2.store.owns c 3 = true ∧
        (withLoad q.2.shared.engine c 3 four).store.residents = theFour ∧
        (withLoad q.2.shared.engine c 3 four).store.weightedSize = 12 ∧
        (withLoad q.2.shared.engine c 3 four).store.batchSize ≠ 0 ∧
        (withLoad q.2.shared.engine c 3 four).store.capacity.toNat = 10 ∧
        (withLoad q.2.shared.engine c 3 four).store.targetWeight = 10) &&
      (r.2.record hits').any fun q ↦ (∀ x ∈ q.1, x.hitting = true) ∧ hitKeys q.1 = [b, a, a] ∧
        q.2.shared.handles.length = 1 := by decide +kernel
  obtain ⟨⟨log, u⟩, hu, hprops⟩ := (Option.any_eq_true _ _).1 hend
  obtain ⟨t, ht, hrun⟩ := Option.bind_eq_some_iff.1 hu
  obtain ⟨hfirst, hsecond⟩ := Bool.and_eq_true_iff.1 hprops
  obtain ⟨hturns, hfirst⟩ := Bool.and_eq_true_iff.1 hfirst
  obtain ⟨⟨one, v⟩, hv, hprops⟩ := (Option.any_eq_true _ _).1 hfirst
  obtain ⟨⟨other, v'⟩, hv', hprops'⟩ := (Option.any_eq_true _ _).1 hsecond
  obtain ⟨hh, hkeys, hnone, howns, hfour, hweight, hbatch, hcapacity, htarget⟩ :=
    of_decide_eq_true hprops
  obtain ⟨hh', hkeys', hone⟩ := of_decide_eq_true hprops'
  have hturn : t.InTurn log u := ⟨records_of_record hrun, of_decide_eq_true hturns⟩
  have hrec := records_of_record hv
  have hrec' := records_of_record hv'
  have hsame : ∀ k, k ∈ hitKeys one ↔ k ∈ hitKeys other := by
    intro k
    simp only [hkeys, hkeys', List.mem_cons, List.not_mem_nil, or_false, or_self]
    exact or_comm
  have hinitial := initial_of_create? ht
  obtain ⟨-, -, -, -, horders⟩ := recency_of_sequential hinitial hturn
  obtain ⟨htable, -, hdeeds⟩ := horders one other v v' hrec hrec' hh hh' hsame
  have hp : v.shared.store.slots.Proper := (hturn.records.append hrec).proper hinitial.proper
  have hpressed : Pressed (withLoad v.shared.engine c 3 four) :=
    ⟨by rw [hfour, hweight]; rfl, hbatch, by rw [hcapacity, hweight]; decide,
      by rw [htarget, hweight]; decide⟩
  have hgone : (Deed.run v.shared.engine (loadDeeds c 3 four)).2.store.slots.get?
      ((smallFile "d" 2).chunkId 0) = none := by
    refine gone_of_oldest (v := ((smallFile "d" 2).chunkId 0, ⟨0, 2, 0⟩)) hp howns hpressed ?_ ?_
    · rw [hfour]
      exact List.mem_cons_self
    · rw [hfour]
      decide
  exact ⟨t, u, v, v', log, one, other, loadDeeds c 3 four, hinitial, hturn, hrec, hrec', hkeys,
    hkeys', hnone, hone, htable, hgone, (hdeeds _).2.1⟩

end Traffic
end ReadCache
