import ReadCache.Proofs.Reading
import ReadCache.Proofs.Twins

namespace ReadCache

/-- How a reader acts that cannot tell one block from another of its capacity, and asks for no more
memory than there can be. -/
structure SteadyConduct extends Conduct where
  plain : ∀ b, outcome b.plain = ((outcome b).1, (outcome b).2.plain)
  bounded : ∀ b, b.capacity < Block.capacityLimit → (outcome b).2.capacity < Block.capacityLimit

namespace Reader
variable {source : ByteSource} {data : ByteArray}

def Filling.bytes : Filling → ByteArray
  | full bytes | short bytes | broken bytes _ => bytes

theorem size_fillFrom_le (hs : source.Serves data) (position : UInt64) {length missing : Nat}
    {bytes : ByteArray} (hle : bytes.size ≤ length) :
    (fillFrom source position length missing bytes).bytes.size ≤ length := by
  induction missing generalizing bytes with
  | zero => exact hle
  | succ missing ih =>
    simp only [fillFrom]
    split
    · exact hle
    · split
      · exact hle
      · rename_i piece hread
        split
        · exact hle
        · have hpiece := (hs _ _ _ hread).1
          refine ih ?_
          rw [ByteArray.size_append]
          omega

theorem size_zeros (n : Nat) : (zeros n).size = n := by
  have hpush (l : List UInt8) (bytes : ByteArray) :
      (l.foldl ByteArray.push bytes).size = bytes.size + l.length := by
    induction l generalizing bytes with
    | nil => rfl
    | cons b l ih =>
      rw [List.foldl_cons, ih, ByteArray.size_push, List.length_cons]
      omega
  rw [zeros, hpush, List.length_replicate]
  exact Nat.zero_add n

theorem readChunk_plain (r : Reader) (position : UInt64) (b : Block) :
    r.readChunk position b.plain =
      ((r.readChunk position b).1, (r.readChunk position b).2.plain) := by
  have hfits (n : Nat) : b.plain.fits n = b.fits n := rfl
  simp only [readChunk, hfits]
  split
  · rfl
  split
  · rfl
  split
  · rfl
  split
  · rfl
  split <;> rfl

theorem grownCapacity_lt {b : Block} {length n : Nat} (hb : b.capacity < Block.capacityLimit)
    (hfits : b.fits length = true) (hn : n ≤ length) :
    Block.grownCapacity b.capacity n < Block.capacityLimit := by
  simp only [Block.fits, Bool.or_eq_true, decide_eq_true_eq] at hfits
  unfold Block.grownCapacity at hfits ⊢
  split
  · exact hb
  · rename_i hmore
    have hall : ¬ length ≤ b.capacity := fun h ↦ hmore (Nat.le_trans hn h)
    rw [if_neg hall] at hfits
    have hlt := hfits.resolve_left hall
    omega

theorem capacity_readChunk_lt {r : Reader} (hs : r.source.Serves data) (position : UInt64)
    {b : Block} (hb : b.capacity < Block.capacityLimit) :
    (r.readChunk position b).2.capacity < Block.capacityLimit := by
  have hfill : (fill r.source position (r.chunkLength position)).bytes.size ≤ r.chunkLength position :=
    size_fillFrom_le hs position (Nat.zero_le _)
  simp only [readChunk]
  split
  · exact hb
  split
  · exact hb
  split
  · exact hb
  split
  · exact hb
  rename_i hfits
  simp only [Bool.not_eq_true', Bool.not_eq_false] at hfits
  split
  · rename_i bytes he
    rw [he] at hfill
    exact grownCapacity_lt hb hfits hfill
  · exact grownCapacity_lt hb hfits (Nat.le_refl _)
  · rename_i bytes e he
    rw [he] at hfill
    refine grownCapacity_lt hb hfits ?_
    rw [ByteArray.size_append, size_zeros]
    simp only [Filling.bytes] at hfill
    omega

def steady (r : Reader) (position : UInt64) (hs : r.source.Serves data) : SteadyConduct where
  toConduct := .ofReader r position
  plain := r.readChunk_plain position
  bounded _ hb := capacity_readChunk_lt hs position hb

end Reader

inductive Act where
  | invalidate (k : ChunkId)
  | sweep (matches? : ChunkId → Bool)
  | reference (chunk : ChunkRef)
  | share (chunk : ChunkRef)
  | release (chunk : ChunkRef)

inductive Answer where
  | chunk (answer : Except Failure ChunkRef)
  | removed (was : Bool)
  | swept (n : Nat)
  | referenced (answer : Except Failure Bool)
  | done

def Act.run (e : Engine) : Act → Answer × Engine
  | invalidate k => (.removed (e.invalidate k).1, (e.invalidate k).2)
  | sweep matches? => (.swept (e.invalidateMatching matches?).1, (e.invalidateMatching matches?).2)
  | reference chunk =>
    (.referenced (e.memory.reference chunk).1, e.onMemory fun m ↦ (m.reference chunk).2)
  | share chunk => (.done, e.onMemory (·.share chunk))
  | release chunk => (.done, e.onMemory (·.unreference chunk))

/-- What is seen after an operation: its answer, how many chunks are resident and how large they are
together, what each key is taken up by, with its stamp, what was counted, how many blocks went out
of the pool and came back, and the bytes that each chunk shows to those who hold it. -/
structure Sight where
  answer : Answer
  size : Nat
  weightedSize : Nat
  slots : ChunkId → Option Slot
  counters : Counters
  acquired : Nat
  released : Nat
  bytes : ChunkRef → Option ByteArray

def Engine.sight (e : Engine) (answer : Answer) : Sight where
  answer := answer
  size := e.store.size
  weightedSize := e.store.weightedSize
  slots := e.store.slots.get?
  counters := e.store.counters
  acquired := e.memory.pool.acquired
  released := e.memory.pool.released
  bytes := e.memory.view?

/-- What was seen so far, and the engines at which the passes began. -/
structure Journal where
  sights : List Sight := []
  passes : List Engine := []

/-- Operations one after the other. The read of a chunk may run others, before its outcome. -/
inductive Program where
  | done
  | act (a : Act) (rest : Program)
  | get (k : ChunkId) (c : SteadyConduct) (during rest : Program)

def Conduct.loadDuring {σ : Type} (c : Conduct) (during : Engine × σ → Engine × σ)
    (position : UInt64) (roundUp : Bool) : Action (Engine × σ) Block :=
  Engine.loadBlock c.reader (fun _ b s ↦ (c.outcome b, during s)) position roundUp

def Engine.passOf {σ : Type} (k : ChunkId) (load : Action (Engine × σ) Block) (s : Engine × σ) :
    Option Engine :=
  match s.1.request k with
  | (.load t, e) =>
    match load (e, s.2) with
    | (.ok b, e, _) => if e.store.owns k t then some (e.settled k t b) else none
    | _ => none
  | _ => none

theorem Engine.evictIfNeeded_of_passOf {σ : Type} {k : ChunkId} {load : Action (Engine × σ) Block}
    {s : Engine × σ} {e : Engine} (h : passOf k load s = some e) :
    (getOrLoadWith k load s).2.1 = e.evictIfNeeded := by
  obtain ⟨e₀, s₀⟩ := s
  simp only [passOf, getOrLoadWith] at h ⊢
  generalize e₀.request k = q at h ⊢
  obtain ⟨_ | _ | t, e₁⟩ := q
  · cases h
  · cases h
  · dsimp only at h ⊢
    generalize load (e₁, s₀) = got at h ⊢
    obtain ⟨_ | b, e₂, s₂⟩ := got
    · cases h
    · rcases ho : e₂.store.owns k t with _ | _ <;> simp only [ho] at h
      · cases h
      · cases h
        simp only [finish, land_of_owns ho]

def Act.watch (a : Act) (s : Engine × Journal) : Engine × Journal :=
  ((a.run s.1).2, { s.2 with sights := s.2.sights ++ [(a.run s.1).2.sight (a.run s.1).1] })

def SteadyConduct.watch (c : SteadyConduct) (k : ChunkId)
    (during : Engine × Journal → Engine × Journal) (s : Engine × Journal) : Engine × Journal :=
  let load := c.loadDuring during k.position s.1.store.settings.roundUp
  let got := Engine.getOrLoadWith k load s
  (got.2.1,
    { sights := got.2.2.sights ++ [got.2.1.sight (.chunk got.1)]
      passes := got.2.2.passes ++ (Engine.passOf k load s).toList })

def Program.run : Program → Engine × Journal → Engine × Journal
  | done, s => s
  | act a rest, s => rest.run (a.watch s)
  | get k c during rest, s => rest.run (c.watch k (fun s ↦ during.run s) s)

/-- Two states of a run that nobody can tell apart. -/
structure Alike (s s' : Engine × Journal) : Prop where
  twin : s.1.Twin s'.1
  sound : s.1.Sound
  sound' : s'.1.Sound
  sights : s.2.sights = s'.2.sights

/-- From states that cannot be told apart `f` comes to such states, if none of its passes has to
choose. -/
def Simulates (f : Engine × Journal → Engine × Journal) : Prop :=
  ∀ s s', Alike s s' → (∀ e ∈ (f s).2.passes, e.Untied) → Alike (f s) (f s')

namespace Alike
variable {e e' : Engine} {j j' : Journal} {k : ChunkId}

theorem sight (h : Alike (e, j) (e', j')) (answer : Answer) : e.sight answer = e'.sight answer := by
  obtain ⟨htwin, hsound, hsound', -⟩ := h
  have hsize : e.store.size = e'.store.size :=
    (htwin.store.residents hsound.coherent.proper hsound'.coherent.proper).length_eq
  have hslots : e.store.slots.get? = e'.store.slots.get? := funext htwin.store.slots
  have hbytes : e.memory.view? = e'.memory.view? := by
    funext c
    rw [← Memory.view?_plain, htwin.memory, Memory.view?_plain]
  have hweight : e.store.weightedSize = e'.store.weightedSize := htwin.store.weightedSize
  have hcounters : e.store.counters = e'.store.counters := htwin.store.counters
  have hacquired : e.memory.pool.acquired = e'.memory.pool.acquired :=
    congrArg (·.pool.acquired) htwin.memory
  have hreleased : e.memory.pool.released = e'.memory.pool.released :=
    congrArg (·.pool.released) htwin.memory
  simp only [Engine.sight, hsize, hweight, hslots, hcounters, hacquired, hreleased, hbytes]

theorem see (h : Alike (e, j) (e', j')) (answer : Answer) (passes passes' : List Engine) :
    Alike (e, ⟨j.sights ++ [e.sight answer], passes⟩)
      (e', ⟨j'.sights ++ [e'.sight answer], passes'⟩) :=
  ⟨h.twin, h.sound, h.sound', by
    have hsights : j.sights = j'.sights := h.sights
    simp only [hsights, h.sight]⟩

theorem act (h : Alike (e, j) (e', j')) (a : Act) :
    (a.run e).1 = (a.run e').1 ∧ Alike ((a.run e).2, j) ((a.run e').2, j') := by
  obtain ⟨htwin, hsound, hsound', hsights⟩ := h
  cases a with
  | invalidate k =>
    obtain ⟨hwas, hrest⟩ := htwin.invalidate hsound hsound' k
    exact ⟨congrArg Answer.removed hwas, hrest, hsound.invalidate k, hsound'.invalidate k, hsights⟩
  | sweep matches? =>
    obtain ⟨hcount, hrest⟩ := htwin.invalidateMatching hsound hsound' matches?
    exact ⟨congrArg Answer.swept hcount, hrest, hsound.invalidateMatching matches?,
      hsound'.invalidateMatching matches?, hsights⟩
  | reference c =>
    have hplain := Memory.reference_plain e.memory c
    have hplain' := Memory.reference_plain e'.memory c
    rw [htwin.memory] at hplain
    refine ⟨congrArg Answer.referenced (hplain.1.symm.trans hplain'.1),
      ⟨htwin.store, hplain.2.symm.trans hplain'.2⟩, ⟨hsound.coherent, hsound.stocked.reference c⟩,
      ⟨hsound'.coherent, hsound'.stocked.reference c⟩, hsights⟩
  | share c =>
    have hshare : (e.memory.share c).plain = (e'.memory.share c).plain := by
      rw [Memory.plain_share, htwin.memory, ← Memory.plain_share]
    exact ⟨rfl, ⟨htwin.store, hshare⟩, ⟨hsound.coherent, hsound.stocked.share c⟩,
      ⟨hsound'.coherent, hsound'.stocked.share c⟩, hsights⟩
  | release c =>
    exact ⟨rfl, ⟨htwin.store, htwin.unreference c⟩, ⟨hsound.coherent, hsound.stocked.unreference c⟩,
      ⟨hsound'.coherent, hsound'.stocked.unreference c⟩, hsights⟩

inductive Loaded : Except Failure Block → Except Failure Block → Prop where
  | error (f : Failure) : Loaded (.error f) (.error f)
  | ok {b b' : Block} : b.plain = b'.plain → b.capacity < Block.capacityLimit →
    Loaded (.ok b) (.ok b')

theorem loaded_of_served {loaded loaded' : Except Failure Block} {limit : Option UInt64}
    {size : UInt64} {kind : BufferKind} (h : loaded.map Block.plain = Pool.served limit size kind)
    (h' : loaded'.map Block.plain = Pool.served limit size kind) : Loaded loaded loaded' := by
  have hsame := h.trans h'.symm
  rcases loaded with f | b <;> rcases loaded' with f' | b'
  · cases hsame
    exact .error f
  · cases hsame
  · cases hsame
  · exact .ok (Except.ok.inj hsame) (Pool.capacity_served (b := b.plain) h.symm)

theorem acquireFor (h : Alike (e, j) (e', j')) (r : Reader) (position : UInt64) (roundUp : Bool) :
    Loaded (Engine.acquireFor r position roundUp (e, j)).1
        (Engine.acquireFor r position roundUp (e', j')).1 ∧
      Alike (Engine.acquireFor r position roundUp (e, j)).2
        (Engine.acquireFor r position roundUp (e', j')).2 := by
  simp only [Engine.acquireFor]
  rcases r.loadSize? position roundUp with _ | size
  · exact ⟨.error .panic, h⟩
  · obtain ⟨htwin, hsound, hsound', hsights⟩ := h
    obtain ⟨hblock, hmemory⟩ := Memory.acquire_plain hsound.stocked size r.bufferKind
    obtain ⟨hblock', hmemory'⟩ := Memory.acquire_plain hsound'.stocked size r.bufferKind
    rw [htwin.memory] at hblock hmemory
    exact ⟨loaded_of_served hblock hblock', ⟨htwin.store, hmemory.trans hmemory'.symm⟩,
      ⟨hsound.coherent, hsound.stocked.acquire size r.bufferKind⟩,
      ⟨hsound'.coherent, hsound'.stocked.acquire size r.bufferKind⟩, hsights⟩

theorem giveBack (h : Alike (e, j) (e', j')) {b b' : Block} (hb : b.capacity < Block.capacityLimit)
    (hb' : b'.capacity < Block.capacityLimit) :
    Alike (e.onMemory (·.giveBack b), j) (e'.onMemory (·.giveBack b'), j') where
  twin := by
    refine ⟨h.twin.store, ?_⟩
    show (e.memory.giveBack b).plain = (e'.memory.giveBack b').plain
    have hmemory : e.memory.plain = e'.memory.plain := h.twin.memory
    rw [Memory.plain_giveBack, Memory.plain_giveBack, hmemory]
  sound := ⟨h.sound.coherent, h.sound.stocked.giveBack hb⟩
  sound' := ⟨h.sound'.coherent, h.sound'.stocked.giveBack hb'⟩
  sights := h.sights

theorem outcome (c : SteadyConduct) {b b' : Block} (h : b.plain = b'.plain) :
    (c.outcome b).1 = (c.outcome b').1 ∧ (c.outcome b).2.plain = (c.outcome b').2.plain := by
  have hb := c.plain b
  have hb' := c.plain b'
  rw [h, hb'] at hb
  exact ⟨(congrArg Prod.fst hb).symm, (congrArg Prod.snd hb).symm⟩

variable {f : Engine × Journal → Engine × Journal}

theorem loadDuring (h : Alike (e, j) (e', j')) (hf : Simulates f) (c : SteadyConduct)
    (position : UInt64) (roundUp : Bool)
    (hpasses : ∀ p ∈ (c.loadDuring f position roundUp (e, j)).2.2.passes, p.Untied) :
    Loaded (c.loadDuring f position roundUp (e, j)).1 (c.loadDuring f position roundUp (e', j')).1 ∧
      Alike (c.loadDuring f position roundUp (e, j)).2
        (c.loadDuring f position roundUp (e', j')).2 := by
  obtain ⟨hloaded, hstate⟩ := h.acquireFor c.reader position roundUp
  simp only [Conduct.loadDuring, Engine.loadBlock, Action.bind_eq] at hpasses ⊢
  generalize Engine.acquireFor c.reader position roundUp (e, j) = got at hloaded hstate hpasses ⊢
  generalize Engine.acquireFor c.reader position roundUp (e', j') = got' at hloaded hstate ⊢
  obtain ⟨loaded, s⟩ := got
  obtain ⟨loaded', s'⟩ := got'
  dsimp only at hloaded hstate
  cases hloaded with
  | error failure => exact ⟨.error failure, hstate⟩
  | @ok b b' hplain hlt =>
    have hbound := c.bounded b hlt
    have hbound' := c.bounded b' (Block.capacity_of_plain hplain ▸ hlt)
    obtain ⟨hanswer, hblock⟩ := outcome c hplain
    simp only [Engine.readInto] at hpasses ⊢
    rcases ho : c.outcome b with ⟨failure | ⟨⟩, b₁⟩ <;>
      rcases ho' : c.outcome b' with ⟨_ | ⟨⟩, b₁'⟩ <;>
      rw [ho] at hanswer hblock hbound hpasses <;> rw [ho'] at hanswer hblock hbound' <;>
      dsimp only at hanswer hblock hbound hbound' hpasses ⊢
    · cases hanswer
      exact ⟨.error failure, (hf s s' hstate hpasses).giveBack hbound hbound'⟩
    · cases hanswer
    · cases hanswer
    · exact ⟨.ok hblock hbound, hf s s' hstate hpasses⟩

theorem finish (h : Alike (e, j) (e', j')) (k : ChunkId) (t : Ticket)
    {loaded loaded' : Except Failure Block} (hloaded : Loaded loaded loaded')
    (hpass : ∀ b, loaded = .ok b → e.store.owns k t = true → (e.settled k t b).Untied) :
    (e.finish k t loaded).1 = (e'.finish k t loaded').1 ∧
      Alike ((e.finish k t loaded).2, j) ((e'.finish k t loaded').2, j') := by
  obtain ⟨htwin, hsound, hsound', hsights⟩ := h
  cases hloaded with
  | error failure =>
    obtain ⟨hanswer, hrest⟩ := htwin.failed hsound hsound' k t failure
    exact ⟨hanswer, hrest, hsound.failed k t failure, hsound'.failed k t failure, hsights⟩
  | @ok b b' hplain hlt =>
    have hsettled := htwin.settled hsound hsound' k t hplain
    have hs := hsound.settled k t hlt
    have hs' := hsound'.settled k t (Block.capacity_of_plain hplain ▸ hlt)
    have howns : e.store.owns k t = e'.store.owns k t := htwin.store.owns k t
    have hsize : e.memory.chunks.size = e'.memory.chunks.size := htwin.size_chunks
    simp only [Engine.finish]
    rcases ho : e.store.owns k t with _ | _
    · rw [Engine.land_of_lost ho, Engine.land_of_lost (howns ▸ ho), ← hsize]
      exact ⟨rfl, hsettled.retire _ _, hs.retire _ _, hs'.retire _ _, hsights⟩
    · rw [Engine.land_of_owns ho, Engine.land_of_owns (howns ▸ ho), ← hsize]
      exact ⟨rfl, hsettled.evictIfNeeded hs hs' (hpass b rfl ho), hs.evictIfNeeded,
        hs'.evictIfNeeded, hsights⟩

theorem getOrLoadWith (h : Alike (e, j) (e', j')) (k : ChunkId)
    {load : Action (Engine × Journal) Block}
    (hload : ∀ e e', Alike (e, j) (e', j') →
      (∀ p ∈ (load (e, j)).2.2.passes, p.Untied) →
      Loaded (load (e, j)).1 (load (e', j')).1 ∧ Alike (load (e, j)).2 (load (e', j')).2)
    (hpasses : ∀ p ∈ (Engine.getOrLoadWith k load (e, j)).2.2.passes, p.Untied)
    (hpass : ∀ p ∈ Engine.passOf k load (e, j), p.Untied) :
    (Engine.getOrLoadWith k load (e, j)).1 = (Engine.getOrLoadWith k load (e', j')).1 ∧
      Alike (Engine.getOrLoadWith k load (e, j)).2 (Engine.getOrLoadWith k load (e', j')).2 := by
  obtain ⟨hlookup, htwin⟩ := h.twin.request h.sound h.sound' k
  have hstate : Alike ((e.request k).2, j) ((e'.request k).2, j') :=
    ⟨htwin, h.sound.request k, h.sound'.request k, h.sights⟩
  simp only [Engine.getOrLoadWith, Engine.passOf] at hpasses hpass ⊢
  generalize e.request k = q at hlookup hstate hpasses hpass ⊢
  generalize e'.request k = q' at hlookup hstate ⊢
  obtain ⟨lookup, e₀⟩ := q
  obtain ⟨lookup', e₀'⟩ := q'
  dsimp only at hlookup hstate
  subst hlookup
  cases lookup with
  | hit c => exact ⟨rfl, hstate⟩
  | wait t =>
    have hresult : e₀.store.results = e₀'.store.results := hstate.twin.store.results
    have hreceive : e₀.receive t = e₀'.receive t := by
      simp only [Engine.receive, Store.result?, hresult]
    exact ⟨hreceive, hstate⟩
  | load t =>
    obtain ⟨hloaded, hend⟩ := hload e₀ e₀' hstate hpasses
    dsimp only at hpass ⊢
    generalize load (e₀, j) = got at hloaded hend hpass ⊢
    generalize load (e₀', j') = got' at hloaded hend ⊢
    obtain ⟨loaded, e₁, j₁⟩ := got
    obtain ⟨loaded', e₁', j₁'⟩ := got'
    refine hend.finish k t hloaded fun b hb ho ↦ ?_
    subst hb
    exact hpass _ (by simp only [ho, if_true, Option.mem_def])

end Alike

def Appends (f : Engine × Journal → Engine × Journal) : Prop := ∀ s, s.2.passes ⊆ (f s).2.passes

variable {f g : Engine × Journal → Engine × Journal}

theorem Simulates.comp (hf : Simulates f) (hg : Simulates g) (happends : Appends g) :
    Simulates (g ∘ f) := by
  intro s s' h hpasses
  exact hg _ _ (hf s s' h fun p hp ↦ hpasses p (happends _ hp)) hpasses

theorem appends_loadDuring (hf : Appends f) (c : Conduct) (position : UInt64) (roundUp : Bool)
    (s : Engine × Journal) : s.2.passes ⊆ (c.loadDuring f position roundUp s).2.2.passes := by
  obtain ⟨e, j⟩ := s
  have hacquire : (Engine.acquireFor c.reader position roundUp (e, j)).2.2 = j := by
    simp only [Engine.acquireFor]
    split <;> rfl
  simp only [Conduct.loadDuring, Engine.loadBlock, Action.bind_eq]
  generalize Engine.acquireFor c.reader position roundUp (e, j) = got at hacquire ⊢
  obtain ⟨_ | b, e₀, j₀⟩ := got <;> subst hacquire
  · exact List.Subset.refl _
  · have hread := hf (e₀, j₀)
    simp only [Engine.readInto]
    rcases c.outcome b with ⟨_ | ⟨⟩, b₁⟩ <;> exact hread

theorem appends_watch (hf : Appends f) (c : SteadyConduct) (k : ChunkId) :
    Appends (c.watch k f) := by
  rintro ⟨e, j⟩
  have hload := appends_loadDuring hf c.toConduct k.position e.store.settings.roundUp
  have hget : j.passes ⊆ (Engine.getOrLoadWith k
      (c.loadDuring f k.position e.store.settings.roundUp) (e, j)).2.2.passes := by
    simp only [Engine.getOrLoadWith]
    rcases e.request k with ⟨_ | _ | t, e₀⟩
    · exact List.Subset.refl _
    · exact List.Subset.refl _
    · exact hload (e₀, j)
  exact List.Subset.trans hget (List.subset_append_left _ _)

theorem Program.appends (p : Program) : Appends p.run := by
  induction p with
  | done => exact fun _ ↦ List.Subset.refl _
  | act a rest ih => exact fun s ↦ ih (a.watch s)
  | get k c during rest ihd ih =>
    exact fun s ↦ List.Subset.trans (appends_watch ihd c k s) (ih (c.watch k during.run s))

theorem simulates_act (a : Act) : Simulates a.watch := by
  rintro ⟨e, j⟩ ⟨e', j'⟩ h -
  obtain ⟨hanswer, hrest⟩ := h.act a
  have hsee := hrest.see (a.run e).1 j.passes j'.passes
  simp only [Act.watch, ← hanswer]
  exact hsee

theorem simulates_watch (hf : Simulates f) (c : SteadyConduct) (k : ChunkId) :
    Simulates (c.watch k f) := by
  rintro ⟨e, j⟩ ⟨e', j'⟩ h hpasses
  have hround : e.store.settings.roundUp = e'.store.settings.roundUp := h.twin.store.fixed.2.2.2
  simp only [SteadyConduct.watch, ← hround, List.mem_append, Option.mem_toList] at hpasses ⊢
  obtain ⟨hanswer, hrest⟩ := h.getOrLoadWith k
    (fun _ _ h hp ↦ h.loadDuring hf c k.position e.store.settings.roundUp hp)
    (fun p hp ↦ hpasses p (.inl hp)) (fun p hp ↦ hpasses p (.inr hp))
  rw [← hanswer]
  exact hrest.see _ _ _

/-- A program does not tell two stores apart that differ in their shards only. -/
theorem Program.simulates (p : Program) : Simulates p.run := by
  induction p with
  | done => exact fun _ _ h _ ↦ h
  | act a rest ih => exact (simulates_act a).comp ih rest.appends
  | get k c during rest ihd ih => exact (simulates_watch ihd c k).comp ih rest.appends

theorem twin_create? {settings : Store.Settings} {n : UInt64} {ties : Store.Ties}
    {hash hash' : ChunkId → UInt64} {s s' : Store} (h : Store.create? settings hash = some s)
    (h' : Store.create? { settings with shardCount := n, ties } hash' = some s') : s.Twin s' := by
  have hfree {settings : Store.Settings} {hash : ChunkId → UInt64} {s : Store}
      (h : Store.create? settings hash = some s) (k : ChunkId) : s.slots.get? k = none := by
    rw [(Store.proper_create? h).get?_eq_none_iff, Store.create?_eq h, ShardedMap.toList_empty]
    exact List.not_mem_nil
  have hslots (k : ChunkId) : s.slots.get? k = s'.slots.get? k :=
    (hfree h k).trans (hfree h' k).symm
  rw [Store.create?_eq h, Store.create?_eq h'] at hslots ⊢
  exact ⟨hslots, rfl, rfl, rfl, rfl, rfl⟩

theorem coherent_create? {settings : Store.Settings} {hash : ChunkId → UInt64} {s : Store}
    (h : Store.create? settings hash = some s) : s.Coherent where
  proper := Store.proper_create? h
  weight := by
    rw [Store.residents_create? h, Store.create?_eq h]
    rfl

/-- Two empty stores of the same capacity and policy, with any numbers of shards, any hashes and any
order among equals, and pools that differ at most in which blocks wait in them. Whatever is done
with them, the same is seen of both after each operation, as long as no pass on the first has to
choose between chunks that were used last at the same time: the answers and errors, the residents
with their stamps and weights, the bytes that are served, and all counts. -/
theorem sharding_invisible {settings : Store.Settings} {n : UInt64} {ties : Store.Ties}
    {hash hash' : ChunkId → UInt64} {s s' : Store} (h : Store.create? settings hash = some s)
    (h' : Store.create? { settings with shardCount := n, ties } hash' = some s')
    {m m' : Memory} (hm : m.Stocked) (hm' : m'.Stocked) (hplain : m.plain = m'.plain)
    (p : Program) (huntied : ∀ e ∈ (p.run (⟨s, m⟩, {})).2.passes, e.Untied) :
    (p.run (⟨s, m⟩, {})).2.sights = (p.run (⟨s', m'⟩, {})).2.sights := by
  have hstart : Alike (⟨s, m⟩, {}) (⟨s', m'⟩, {}) :=
    ⟨⟨twin_create? h h', hplain⟩, ⟨coherent_create? h, hm⟩, ⟨coherent_create? h', hm'⟩, rfl⟩
  exact (p.simulates _ _ hstart huntied).sights

theorem Memory.stocked_empty : ({} : Memory).Stocked where
  pool := FreeLists.holds_of_empty rfl
  chunks c chunk b hc := by
    rw [chunk?, Array.getElem?_eq_none (Nat.zero_le c)] at hc
    cases hc

namespace Engine

def overfull (e : Engine) : Bool := e.store.capacity.toNat < e.store.weightedSize

/-- Either nothing is taken out or no two residents are of one age. -/
def settles (e : Engine) : Bool := !e.overfull || (e.store.residents.map (·.2.lastAccess)).Nodup

theorem untied_of_settles {e : Engine} (h : e.settles = true) : e.Untied := by
  rcases Bool.or_eq_true_iff.1 h with hfits | hnodup
  · rw [overfull, Bool.not_eq_true', decide_eq_false_iff_not, Nat.not_lt] at hfits
    exact untied_of_le hfits
  · exact untied_of_nodup (of_decide_eq_true hnodup)

end Engine

def smallKey (path : String) : ChunkId := ⟨path, Reader.simpleKind, 0⟩

def smallRead (path : String) (n : Nat) (during rest : Program) : Program :=
  .get (smallKey path)
    ((Traffic.smallFile path n).steady 0 (ByteSource.serves_ofMemory path (Reader.zeros n)))
    during rest

def Store.Ties.reversed : Ties := ⟨fun _ seen ↦ seen.reverse, fun _ seen ↦ List.reverse_perm seen⟩

/-- A chunk is invalidated by its own read, and read again. Then a third does not fit. -/
theorem sharding_invisible_past_eviction :
    ∃ (s s' : Store) (p : Program), Store.create? Traffic.tight ChunkId.hash = some s ∧
      Store.create? { Traffic.tight with shardCount := 4, ties := .reversed }
        (fun k ↦ .ofNat k.path.length) = some s' ∧
      (p.run (⟨s, {}⟩, {})).2.passes.any Engine.overfull ∧
      (p.run (⟨s, {}⟩, {})).2.sights = (p.run (⟨s', {}⟩, {})).2.sights := by
  let p : Program :=
    smallRead "a" 6 .done <| smallRead "bb" 4 (.act (.invalidate (smallKey "bb")) .done) <|
    smallRead "bb" 4 .done <| smallRead "ccc" 5 .done .done
  have hend : (Store.create? Traffic.tight ChunkId.hash).any fun s ↦
      (p.run (⟨s, {}⟩, {})).2.passes.any Engine.overfull &&
      (p.run (⟨s, {}⟩, {})).2.passes.all Engine.settles := by decide +kernel
  have hstart : (Store.create? { Traffic.tight with shardCount := 4, ties := .reversed } fun k ↦
      .ofNat k.path.length).isSome := by decide +kernel
  obtain ⟨s, hs, hprops⟩ := (Option.any_eq_true _ _).1 hend
  obtain ⟨s', hs'⟩ := Option.isSome_iff_exists.1 hstart
  obtain ⟨hfull, hpasses⟩ := Bool.and_eq_true_iff.1 hprops
  have huntied : ∀ e ∈ (p.run (⟨s, {}⟩, {})).2.passes, e.Untied :=
    fun e he ↦ Engine.untied_of_settles (List.all_eq_true.1 hpasses e he)
  exact ⟨s, s', p, hs, hs', hfull,
    sharding_invisible hs hs' Memory.stocked_empty Memory.stocked_empty rfl p huntied⟩

end ReadCache
