import ReadCache.Cache
import ReadCache.Proofs.Reading
import ReadCache.Proofs.Steps

namespace ReadCache

/-- What the readers of a file have in common. -/
structure Image where
  data : ByteArray
  length : UInt64
  chunkSize : UInt64

namespace Image

def start (f : Image) (position : Nat) : Nat := position - position % f.chunkSize.toNat

def slice (f : Image) (position : Nat) : ByteArray :=
  f.data.extract position (min (position + f.chunkSize.toNat) f.length.toNat)

end Image

/-- The files that the readers of each kind find at each path. -/
abbrev Files := String → String → Image

def Files.slice (files : Files) (k : ChunkId) : ByteArray :=
  (files k.path k.kind).slice k.position.toNat

namespace Reader

/-- The reader reads that file. It may be closed, and single reads may fail or give less. -/
structure Shows (r : Reader) (f : Image) : Prop where
  serves : r.source.Serves f.data
  length : r.length = f.length
  chunkSize : r.chunkSize = f.chunkSize
  statedChunkSize : r.statedChunkSize = f.chunkSize

variable {r : Reader} {f : Image}

theorem shows_withLength? {source : ByteSource} {chunkSize length : UInt64} {data : ByteArray}
    (hs : source.Serves data) (h : withLength? source chunkSize length = .ok r) :
    r.Shows ⟨data, length, chunkSize⟩ := by
  simp only [withLength?] at h
  split at h
  · cases h
    exact ⟨hs, rfl, rfl, rfl⟩
  · cases h

theorem Shows.close (h : r.Shows f) : r.close.Shows f :=
  ⟨h.serves, h.length, h.chunkSize, h.statedChunkSize⟩

theorem Shows.turn (h : r.Shows f) {source : ByteSource} (hs : source.Serves f.data) :
    { r with source }.Shows f := ⟨hs, h.length, h.chunkSize, h.statedChunkSize⟩

theorem Shows.outcome (h : r.Shows f) {position : UInt64} {b b' : Block}
    (ho : (Conduct.ofReader r position).outcome b = (.ok (), b')) :
    b'.bytes = f.slice position.toNat := by
  rw [Image.slice, ← h.length, ← h.chunkSize]
  exact readChunk_ok h.serves ho

end Reader

namespace Call

def reads : Call → Option (Nat × ChunkId)
  | get k reader _ _ | direct _ k reader _ => some (reader, k)
  | _ => none

def asked? : Call → Option ChunkId
  | get _ _ (.handle asked _ _) _ | direct asked _ _ _ => some asked
  | _ => none

def gave? : Call → Option Handle
  | get _ _ (.handle asked _ _) (.holding chunk) | direct asked _ _ (.ended (.ok chunk)) =>
    some ⟨chunk, some asked⟩
  | _ => none

end Call

/-- A cache in use: readers are opened, wrapped, read through what the cache gave for them and
closed, and whatever takes time becomes a call. -/
structure Session where
  cache : Cache
  traffic : Traffic
  /-- What the cache gave, and for which reader. -/
  accesses : List (Access × Nat) := []

namespace Session

abbrev shared (s : Session) : Shared := s.traffic.shared

def move (s : Session) (m : Move) : Option Session :=
  (s.traffic.step m).map fun traffic ↦ { s with traffic }

def onReaders (s : Session) (f : List Reader → List Reader) : Session :=
  { s with traffic := s.traffic.onShared fun sh ↦ { sh with readers := f sh.readers } }

def conduct? (s : Session) (c : Call) : Option Conduct :=
  match c.reads with
  | some (i, k) => s.shared.readers[i]?.map (.ofReader · k.position)
  | none => some (.ofReader (Traffic.smallFile "" 0) 0)

inductive Use where
  | openReader (r : Reader)
  /-- From now on the file behind a reader is read in this way. -/
  | turn (reader : Nat) (source : ByteSource)
  | closeReader (reader : Nat)
  | wrap (reader : Nat)
  | rebuffer (access : Nat) (position : UInt64)
  | invalidateIfCached (access : Nat) (position : UInt64)
  | invalidateFile (path : String)
  | setEnabled (on : Bool)
  | close
  | evict
  | resetCounters
  | advance (call : Nat)
  | reference (chunk : ChunkRef)
  | share (handle : Nat)
  | release (handle : Nat)

def step (s : Session) : Use → Option Session
  | .openReader r => some (s.onReaders (· ++ [r]))
  | .turn i source =>
    some (s.onReaders (·.modify i fun r ↦ { r with source := { source with path := r.path } }))
  | .closeReader i => s.move (.closeReader i)
  | .wrap i =>
    match s.shared.readers[i]? with
    | some r =>
      match s.cache.wrap r with
      | .ok a => some { s with accesses := s.accesses ++ [(a, i)] }
      | .error _ => some s
    | none => none
  | .rebuffer n position =>
    match s.accesses[n]? with
    | some (a, i) => s.move (.start (.rebuffer a i position))
    | none => none
  | .invalidateIfCached n position =>
    match s.accesses[n]? with
    | some (a, _) => if a.isCached then s.move (.start (.invalidate (a.chunkId position))) else some s
    | none => none
  | .invalidateFile path => s.move (.start (.sweep fun k ↦ k.path = path))
  | .setEnabled on => { s with cache.enabled := on }.move (.start (.sweep fun _ ↦ true))
  | .close => s.move (.start (.sweep fun _ ↦ true))
  | .evict => s.move (.start .evict)
  | .resetCounters => s.move .resetCounters
  | .advance i =>
    match s.traffic.calls[i]? with
    | some c => (s.conduct? c).bind fun conduct ↦ s.move (.advance i conduct)
    | none => none
  | .reference chunk => s.move (.reference chunk)
  | .share i => s.move (.share i)
  | .release i => s.move (.release i)

/-- Readers of one kind at one path read the same file, however it is read. -/
def Use.Honest (files : Files) (s : Session) : Use → Prop
  | openReader r => r.Shows (files r.path r.kind)
  | turn i source => ∀ r, s.shared.readers[i]? = some r → source.Serves (files r.path r.kind).data
  | _ => True

/-- A cache that was just built. The blocks that wait in its pool may have anything in them. -/
structure Opened (s : Session) : Prop where
  built : ∃ config watchers, Cache.build config watchers = .ok s.cache
  settings : ∃ ties, s.shared.store.settings = { s.cache.settings with ties }
  accesses : s.accesses = []
  readers : s.shared.readers = []
  initial : s.traffic.Initial

/-- One thing done over those files, which leaves no more handles than can be counted. -/
structure Does (files : Files) (s : Session) (use : Use) (s' : Session) : Prop where
  honest : use.Honest files s
  step : s.step use = some s'
  modest : s'.traffic.Modest

inductive Reaches (files : Files) (s : Session) : Session → Prop where
  | refl : Reaches files s s
  | step {t u : Session} (use : Use) : Reaches files s t → t.Does files use u → Reaches files s u

/-- With its next step the call returns the handle. -/
structure Gives (files : Files) (s : Session) (call : Nat) (handle : Handle) (s' : Session) :
    Prop where
  step : s.Does files (.advance call) s'
  handle : ∃ c, s'.traffic.calls[call]? = some c ∧ c.gave? = some handle

variable {files : Files} {s s' : Session}

theorem step_cases {use : Use} (h : s.step use = some s') :
    (∃ m, s.traffic.step m = some s'.traffic) ∨ s'.traffic.calls = s.traffic.calls := by
  have hmove {s s' : Session} {m : Move} (h : s.move m = some s') :
      s.traffic.step m = some s'.traffic := by
    obtain ⟨t, ht, rfl⟩ := Option.map_eq_some_iff.1 h
    exact ht
  cases use with
  | openReader | turn =>
    cases h
    exact .inr rfl
  | wrap i =>
    simp only [step] at h
    split at h
    · split at h <;> cases h
      · exact .inr rfl
      · exact .inr rfl
    · cases h
  | rebuffer n position =>
    simp only [step] at h
    split at h
    · exact .inl ⟨_, hmove h⟩
    · cases h
  | invalidateIfCached n position =>
    simp only [step] at h
    split at h
    · split at h
      · exact .inl ⟨_, hmove h⟩
      · cases h
        exact .inr rfl
    · cases h
  | advance i =>
    simp only [step] at h
    split at h
    · obtain ⟨conduct, -, h⟩ := Option.bind_eq_some_iff.1 h
      exact .inl ⟨_, hmove h⟩
    · cases h
  | setEnabled on => exact .inl ⟨_, hmove (s := { s with cache.enabled := on }) h⟩
  | _ => exact .inl ⟨_, hmove h⟩

end Session

namespace Call
variable {s s' : Shared} {c : Conduct} {x x' : Call}

theorem asked?_step (h : x.step c s = some (x', s')) : x'.asked? = x.asked? := by
  cases steps h with
  | @stage k reader goal => cases goal <;> rfl
  | _ => rfl

theorem asked?_rebuffer (a : Access) (i : Nat) (position : UInt64) :
    (rebuffer a i position).asked? = some (a.reader.chunkId position) := by
  unfold rebuffer
  split <;> rfl

end Call

theorem Stage.step_ne_holding {k : ChunkId} {c : Conduct} {s s' : Shared} {x : Stage}
    {chunk : ChunkRef} : x.step k c s ≠ some (holding chunk, s') := by
  intro h
  cases steps h

namespace Call
variable {s s' : Shared} {c : Conduct} {x x' : Call}

theorem gave?_step {handle : Handle} (h : x.step c s = some (x', s'))
    (hg : x'.gave? = some handle) :
    handle.asked = x.asked? ∧ s'.handles = s.handles ++ [handle] := by
  cases steps h with
  | @stage k reader goal stage stage' _ hq =>
    cases goal with
    | chunk => cases hg
    | handle asked attempts left =>
      cases stage' with
      | holding chunk => exact absurd hq Stage.step_ne_holding
      | _ => cases hg
  | take =>
    cases hg
    exact ⟨rfl, rfl⟩
  | direct hq =>
    cases Direct.steps hq with
    | arrive =>
      cases hg
      exact ⟨rfl, rfl⟩
    | _ => cases hg
  | _ => cases hg

end Call

theorem Traffic.asked?_step {t u : Traffic} {m : Move} {i : Nat} {c : Call}
    (h : t.step m = some u) (hc : t.calls[i]? = some c) :
    ∃ c', u.calls[i]? = some c' ∧ c'.asked? = c.asked? := by
  obtain ⟨hlt, -⟩ := List.getElem?_eq_some_iff.1 hc
  rcases step_cases h with ⟨j, conduct, rfl⟩ | ⟨he | ⟨new, he⟩, -⟩
  · obtain ⟨d, d', s, hd, hstep, rfl⟩ := advance_cases h
    by_cases hj : j = i
    · subst hj
      rw [hc] at hd
      cases hd
      exact ⟨d', List.getElem?_set_self hlt, Call.asked?_step hstep⟩
    · exact ⟨c, by rw [List.getElem?_set_ne hj, hc], rfl⟩
  · exact ⟨c, he ▸ hc, rfl⟩
  · exact ⟨c, by rw [he, List.getElem?_append_left hlt, hc], rfl⟩

namespace Session
variable {files : Files} {s s' : Session}

theorem asked?_of_reaches {i : Nat} {c : Call} (h : s.Reaches files s')
    (hc : s.traffic.calls[i]? = some c) :
    ∃ c', s'.traffic.calls[i]? = some c' ∧ c'.asked? = c.asked? := by
  induction h with
  | refl => exact ⟨c, hc, rfl⟩
  | step use _ hs ih =>
    obtain ⟨d, hd, hasked⟩ := ih
    rcases step_cases hs.step with ⟨m, hm⟩ | he
    · obtain ⟨d', hd', hasked'⟩ := Traffic.asked?_step hm hd
      exact ⟨d', hd', hasked'.trans hasked⟩
    · exact ⟨d, he ▸ hd, hasked⟩

theorem Gives.handle_of_call {i : Nat} {c : Call} {handle : Handle}
    (h : s.Gives files i handle s') (hc : s.traffic.calls[i]? = some c) :
    handle.asked = c.asked? ∧ s'.shared.handles = s.shared.handles ++ [handle] := by
  obtain ⟨⟨-, hstep, -⟩, c', hc', hg⟩ := h
  simp only [Session.step, hc] at hstep
  obtain ⟨conduct, -, hmove⟩ := Option.bind_eq_some_iff.1 hstep
  obtain ⟨u, hu, rfl⟩ := Option.map_eq_some_iff.1 hmove
  obtain ⟨d, d', sh, hd, hadvance, rfl⟩ := Traffic.advance_cases hu
  rw [hc] at hd
  cases hd
  obtain ⟨hlt, -⟩ := List.getElem?_eq_some_iff.1 hc
  simp only [List.getElem?_set_self hlt] at hc'
  cases hc'
  exact Call.gave?_step hadvance hg

theorem handle_of_rebuffer {n j : Nat} {a : Access} {position : UInt64} {s₁ s₂ s₃ : Session}
    {handle : Handle} (ha : s.accesses[n]? = some (a, j))
    (h₁ : s.Does files (.rebuffer n position) s₁) (h₂ : s₁.Reaches files s₂)
    (h₃ : s₂.Gives files s.traffic.calls.length handle s₃) :
    handle.asked = some (a.reader.chunkId position) ∧
      s₃.shared.handles = s₂.shared.handles ++ [handle] := by
  have hs := h₁.step
  simp only [step, ha] at hs
  obtain ⟨u, hu, rfl⟩ := Option.map_eq_some_iff.1 hs
  cases hu
  obtain ⟨c, hc, hasked⟩ := asked?_of_reaches h₂ (i := s.traffic.calls.length)
    (c := .rebuffer a j position) (by simp [Start.call])
  obtain ⟨hhandle, hnew⟩ := h₃.handle_of_call hc
  rw [hasked, Call.asked?_rebuffer] at hhandle
  exact ⟨hhandle, hnew⟩

def open? (cache : Cache) (hash : ChunkId → UInt64) (ties : Store.Ties := .asListed) :
    Option Session :=
  (Traffic.create? { cache.settings with ties } hash).map fun traffic ↦ { cache, traffic }

theorem opened_of_open? {config : Config} {watchers : List String} {cache : Cache}
    {hash : ChunkId → UInt64} {ties : Store.Ties} (hb : Cache.build config watchers = .ok cache)
    (h : open? cache hash ties = some s) : s.Opened := by
  obtain ⟨t, ht, rfl⟩ := Option.map_eq_some_iff.1 h
  have hinitial := Traffic.initial_of_create? ht
  obtain ⟨store, hstore, rfl⟩ := Option.map_eq_some_iff.1 ht
  exact ⟨⟨config, watchers, hb⟩, ⟨ties, by rw [Store.create?_eq hstore]⟩, rfl, rfl, hinitial⟩

def run (s : Session) : List Use → Option Session
  | [] => some s
  | use :: rest => (s.step use).bind fun t ↦
      if t.shared.handles.length + 1 < UInt32.size then t.run rest else none

theorem Reaches.trans {t u : Session} (h : s.Reaches files t) (h' : t.Reaches files u) :
    s.Reaches files u := by
  induction h' with
  | refl => exact h
  | step use _ hs ih => exact .step use ih hs

theorem reaches_of_run {uses : List Use} (hu : ∀ use ∈ uses, ∀ t, use.Honest files t)
    (h : s.run uses = some s') : s.Reaches files s' := by
  induction uses generalizing s with
  | nil =>
    cases h
    exact .refl
  | cons use uses ih =>
    obtain ⟨t, ht, hrest⟩ := Option.bind_eq_some_iff.1 h
    split at hrest
    · rename_i hfew
      have hdoes : s.Does files use t :=
        ⟨hu use List.mem_cons_self s, ht, Traffic.modest_of_few hfew⟩
      exact (Reaches.step use .refl hdoes).trans
        (ih (fun use' hm ↦ hu use' (List.mem_cons_of_mem _ hm)) hrest)
    · cases hrest

def Use.plain : Use → Bool
  | openReader _ | turn .. => false
  | _ => true

theorem Use.honest_of_plain {use : Use} (h : use.plain = true) (t : Session) :
    use.Honest files t := by
  cases use with
  | openReader | turn => cases h
  | _ => trivial

theorem reaches_of_plain {uses : List Use} (hu : uses.all Use.plain = true)
    (h : s.run uses = some s') : s.Reaches files s' :=
  reaches_of_run (fun use hm ↦ use.honest_of_plain (List.all_eq_true.1 hu use hm)) h

theorem does_of_run {use : Use} (hu : use.plain = true) (h : s.run [use] = some s') :
    s.Does files use s' := by
  obtain ⟨t, ht, hrest⟩ := Option.bind_eq_some_iff.1 h
  split at hrest
  · rename_i hfew
    cases hrest
    exact ⟨use.honest_of_plain hu s, ht, Traffic.modest_of_few hfew⟩
  · cases hrest

def small : Cache where
  config := { capacityBytes := some 10, shardCount := 1 }
  enabled := true

def smallFiles : Files := fun _ _ ↦ ⟨Reader.zeros 11, 11, 8⟩

end Session
end ReadCache
