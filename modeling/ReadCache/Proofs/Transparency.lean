import ReadCache.Proofs.Conservation
import ReadCache.Proofs.Faithfulness
import ReadCache.Proofs.Overcounting

namespace ReadCache

/-- Who has a reference to the chunk reads what the file has where it was asked for. -/
def Memory.Reads (m : Memory) (files : Files) (asked : ChunkId) (c : ChunkRef) : Prop :=
  let f := files asked.path asked.kind
  ∃ chunk, m.chunk? c = some chunk ∧ chunk.offset.toNat = f.start asked.position.toNat ∧
    m.view? c = some (f.slice (f.start asked.position.toNat))

theorem Opens.modify {readers : List Reader} {i : Nat} {path kind : String}
    (h : Opens readers i path kind) (j : Nat) {f : Reader → Reader}
    (hf : ∀ r, (f r).path = r.path ∧ (f r).kind = r.kind) :
    Opens (readers.modify j f) i path kind := by
  obtain ⟨r, hr, rfl, rfl⟩ := h
  by_cases he : j = i
  · exact ⟨f r, by simp [he, hr], hf r⟩
  · exact ⟨r, by simp [he, hr], rfl, rfl⟩

theorem Opens.append {readers : List Reader} {i : Nat} {path kind : String}
    (h : Opens readers i path kind) (more : List Reader) :
    Opens (readers ++ more) i path kind := by
  obtain ⟨r, hr, he⟩ := h
  exact ⟨r, by rwa [List.getElem?_append_left (List.getElem?_eq_some_iff.1 hr).1], he⟩

def Move.aside : Move → Bool
  | .reference _ | .share _ | .release _ | .resetCounters => true
  | .start _ | .advance .. | .closeReader _ => false

namespace Traffic

structure Faithful (t : Traffic) (files : Files) (keys : List ChunkId) : Prop where
  accounted : t.Accounted
  shared : t.shared.Faithful files keys
  calls : ∀ c ∈ t.calls, c.Faithful files keys t.shared
  shows : ∀ r ∈ t.shared.readers, r.Shows (files r.path r.kind)

variable {t u : Traffic} {files : Files} {keys : List ChunkId}

theorem faithful_of_initial (h : t.Initial) (hr : t.shared.readers = []) :
    t.Faithful files [] where
  accounted := accounted_of_initial h
  shared := by
    obtain ⟨settings, hash, hstore⟩ := h.store
    have hslots : t.shared.store.slots.toList = [] := by
      rw [Store.create?_eq hstore]
      exact ShardedMap.toList_empty _ _
    have hresults : t.shared.store.results = #[] := by rw [Store.create?_eq hstore]
    refine ⟨⟨by simp [hresults], fun k r hm ↦ ?_, fun k t hm ↦ ?_, fun k t c hk ↦ ?_⟩, ?_⟩
    · simp [hslots] at hm
    · simp [hslots] at hm
    · simp at hk
    · simp [h.handles]
  calls := by simp [h.calls]
  shows := by simp [hr]

theorem Faithful.onReaders (h : t.Faithful files keys) {readers : List Reader}
    (hs : ∀ r ∈ readers, r.Shows (files r.path r.kind))
    (ho : ∀ i path kind, Opens t.shared.readers i path kind → Opens readers i path kind) :
    Faithful (t.onShared fun s ↦ { s with readers }) files keys where
  accounted := ⟨h.accounted.proper, h.accounted.owners, h.accounted.ledger⟩
  shared := ⟨h.shared.store, h.shared.handles⟩
  calls c hc := (h.calls c hc).mono (List.prefix_refl keys) (Memory.keeps_refl _) ho
  shows := hs

theorem Faithful.evolve (h : t.Faithful files keys)
    (hs : t.shared.Evolves files keys u.shared keys) (hc : u.calls = t.calls)
    (ha : u.Accounted) : u.Faithful files keys where
  accounted := ha
  shared := hs.faithful
  calls c hm := (h.calls c (hc ▸ hm)).mono hs.keys hs.memory fun _ _ _ ho ↦ hs.readers ▸ ho
  shows := hs.readers ▸ h.shows

theorem start_faithful (h : t.Faithful files keys) {c : Start}
    (hc : c.call.Faithful files keys t.shared) :
    Faithful { t with calls := t.calls ++ [c.call] } files keys where
  accounted := start_accounted h.accounted c
  shared := h.shared
  calls c' hm := by
    rcases List.mem_append.1 hm with hm | hm
    · exact h.calls c' hm
    · rw [List.mem_singleton.1 hm]
      exact hc
  shows := h.shows

theorem advance_faithful {i : Nat} {conduct : Conduct} (h : t.Faithful files keys)
    (hc : ∀ c j k, t.calls[i]? = some c → c.reads = some (j, k) →
      conduct.Fits (files.slice k)) (hs : t.step (.advance i conduct) = some u) :
    ∃ keys', u.Faithful files keys' ∧ u.shared.readers = t.shared.readers := by
  have ha := advance_accounted h.accounted hs
  obtain ⟨c, c', s, hi, hstep, rfl⟩ := advance_cases hs
  obtain ⟨keys', he, hc'⟩ := Call.step_faithful h.shared (h.calls c (List.mem_of_getElem? hi))
    (fun j k ↦ hc c j k hi) hstep
  refine ⟨keys', ⟨ha, he.faithful, fun d hd ↦ ?_, he.readers ▸ h.shows⟩, he.readers⟩
  rcases List.mem_or_eq_of_mem_set hd with hd | rfl
  · exact (h.calls d hd).mono he.keys he.memory fun _ _ _ ho ↦ he.readers ▸ ho
  · exact hc'

theorem evolves_of_aside (h : t.shared.Faithful files keys) {m : Move} (hm : m.aside = true)
    (hs : t.step m = some u) : t.shared.Evolves files keys u.shared keys ∧ u.calls = t.calls := by
  cases steps hs with
  | start | advance | closeReader => cases hm
  | @reference chunk =>
    have hone := h.onMemory (Memory.keeps_reference t.shared.memory chunk)
    refine ⟨hone.trans (hone.faithful.addHandle fun _ ha ↦ ?_), rfl⟩
    cases ha
  | refuse => exact ⟨h.shrink (Shared.shrinks_of_engine rfl rfl rfl), rfl⟩
  | @share i handle hi =>
    have hkeeps := Memory.keeps_share t.shared.memory handle.chunk
    have hone := h.onMemory hkeeps
    refine ⟨hone.trans (hone.faithful.addHandle fun asked ha ↦ ?_), rfl⟩
    obtain ⟨k, hk, hc⟩ := h.handles handle (List.mem_of_getElem? hi) asked ha
    exact ⟨k, hk, hc.mono hkeeps⟩
  | @release i handle =>
    have hkeeps := Memory.keeps_unreference t.shared.memory handle.chunk
    refine ⟨⟨List.prefix_refl keys, hkeeps, rfl, ?_, fun other ho asked ha ↦ ?_⟩, rfl⟩
    · exact h.store.shrink (Store.shrinks_of_slots rfl rfl) hkeeps
    · obtain ⟨k, hk, hc⟩ := h.handles other (List.mem_of_mem_eraseIdx ho) asked ha
      exact ⟨k, hk, hc.mono hkeeps⟩
  | resetCounters =>
    exact ⟨h.shrink ⟨Store.shrinks_of_slots rfl rfl, Memory.keeps_refl _, rfl, rfl⟩, rfl⟩

theorem view?_of_handle (h : t.Accounted) {handle : Handle} (hm : handle ∈ t.shared.handles) :
    ∃ chunk b, t.shared.memory.chunk? handle.chunk = some chunk ∧ chunk.block = some b ∧
      t.shared.memory.view? handle.chunk = some b.bytes := by
  have hmem : handle.chunk ∈ t.shared.refs t.held :=
    List.mem_append_right _ (List.mem_map_of_mem hm)
  obtain ⟨chunk, hc⟩ := Memory.exists_chunk (h.ledger.counts.known _ hmem)
  obtain ⟨b, hb⟩ := Option.isSome_iff_exists.1 ((h.ledger.counts.kept _ chunk hc).2 hmem)
  have hpos : chunk.references ≠ 0 := fun e ↦ by
    have hcount := h.ledger.counts.count _ chunk hc
    rw [e] at hcount
    exact List.count_eq_zero.1 hcount.symm hmem
  exact ⟨chunk, b, hc, hb, by simp [Memory.view?, hc, Chunk.view?, hpos, hb]⟩

end Traffic

namespace Session

/-- An access of the cache goes by the path of its reader, which is open, and its chunk size. -/
structure Grants (files : Files) (readers : List Reader) (a : Access) (i : Nat) : Prop where
  opens : Opens readers i a.reader.path a.reader.kind
  chunkSize : a.reader.statedChunkSize = (files a.reader.path a.reader.kind).chunkSize
  power : isPowerOfTwo a.reader.statedChunkSize = true

structure Faithful (s : Session) (files : Files) (keys : List ChunkId) : Prop where
  traffic : s.traffic.Faithful files keys
  accesses : ∀ p ∈ s.accesses, Grants files s.shared.readers p.1 p.2

variable {s s' : Session} {files : Files} {keys : List ChunkId}

theorem covers {readers : List Reader} {a : Access} {i : Nat} (h : Grants files readers a i)
    (position : UInt64) : files.Covers (a.chunkId position) (a.reader.chunkId position) where
  path := rfl
  kind := rfl
  position := by
    simp only [Access.chunkId, Reader.chunkId, Image.start]
    rw [Access.toNat_aligned h.power, h.chunkSize]

theorem reader_of_wrap {c : Cache} {r : Reader} {a : Access}
    (h : c.wrap r = .ok a) : a.reader = r ∧ isPowerOfTwo r.statedChunkSize = true := by
  simp only [Cache.wrap, Access.cached?, Access.direct?] at h
  split at h <;> split at h <;> rename_i hp <;> cases h
  · exact ⟨rfl, hp⟩
  · exact ⟨rfl, hp⟩

theorem faithful_of_opened (h : s.Opened) : s.Faithful files [] where
  traffic := Traffic.faithful_of_initial h.initial h.readers
  accesses := by simp [h.accesses]

theorem Faithful.move (h : s.Faithful files keys) {m : Move} (hs : s.move m = some s')
    (hm : s.traffic.step m = some s'.traffic →
      ∃ keys', s'.traffic.Faithful files keys' ∧ s'.shared.readers = s.shared.readers) :
    ∃ keys', s'.Faithful files keys' := by
  obtain ⟨u, hu, rfl⟩ := Option.map_eq_some_iff.1 hs
  obtain ⟨keys', ht, hr⟩ := hm hu
  refine ⟨keys', ht, fun p hp ↦ ?_⟩
  have ha := h.accesses p hp
  exact ⟨hr ▸ ha.opens, ha.chunkSize, ha.power⟩

theorem Faithful.evolve (h : s.Faithful files keys) {m : Move} (hs : s.move m = some s')
    (hm : s.traffic.step m = some s'.traffic →
      s.shared.Evolves files keys s'.shared keys ∧ s'.traffic.calls = s.traffic.calls)
    (ha : s.traffic.step m = some s'.traffic → s'.traffic.Accounted) :
    ∃ keys', s'.Faithful files keys' := by
  refine h.move hs fun hu ↦ ?_
  obtain ⟨he, hc⟩ := hm hu
  exact ⟨keys, h.traffic.evolve he hc (ha hu), he.readers⟩

theorem Faithful.begin (h : s.Faithful files keys) {c : Start}
    (hs : s.move (.start c) = some s') (hc : c.call.Faithful files keys s.shared) :
    ∃ keys', s'.Faithful files keys' := by
  refine h.move hs fun hu ↦ ?_
  rw [← Option.some.inj hu]
  exact ⟨keys, Traffic.start_faithful h.traffic hc,
    (congrArg (·.shared.readers) (Option.some.inj hu)).symm⟩

theorem Faithful.onReaders (h : s.Faithful files keys) {readers : List Reader}
    (hs : ∀ r ∈ readers, r.Shows (files r.path r.kind))
    (ho : ∀ i path kind, Opens s.shared.readers i path kind → Opens readers i path kind) :
    Faithful (s.onReaders fun _ ↦ readers) files keys where
  traffic := h.traffic.onReaders hs ho
  accesses p hp := by
    have ha := h.accesses p hp
    exact ⟨ho _ _ _ ha.opens, ha.chunkSize, ha.power⟩

theorem Faithful.modify (h : s.Faithful files keys) {i : Nat} {f : Reader → Reader}
    (hf : ∀ r, (f r).path = r.path ∧ (f r).kind = r.kind)
    (hs : ∀ r, s.shared.readers[i]? = some r → (f r).Shows (files r.path r.kind)) :
    Faithful (s.onReaders (·.modify i f)) files keys := by
  refine h.onReaders (fun r' hm ↦ ?_) fun j path kind ho ↦ ho.modify i hf
  obtain ⟨j, hj⟩ := List.mem_iff_getElem?.1 hm
  rw [List.getElem?_modify] at hj
  obtain ⟨r, hr, rfl⟩ := Option.map_eq_some_iff.1 hj
  split
  · rename_i he
    subst he
    rw [(hf r).1, (hf r).2]
    exact hs r hr
  · exact h.traffic.shows r (List.mem_of_getElem? hr)

theorem rebuffer_faithful {a : Access} {i : Nat} (h : Grants files s.shared.readers a i)
    (position : UInt64) : (Call.rebuffer a i position).Faithful files keys s.shared := by
  have hk := covers h position
  have ho : Opens s.shared.readers i (a.chunkId position).path (a.chunkId position).kind := h.opens
  unfold Call.rebuffer
  split
  · refine ⟨ho, fun asked _ _ he ↦ ?_, ?_⟩
    · cases he
      exact hk
    · split
      · trivial
      · trivial
  · exact ⟨ho, hk⟩

theorem fits_of_conduct? (h : s.Faithful files keys) {c : Call} {conduct : Conduct}
    (hc : c.Faithful files keys s.shared) (hs : s.conduct? c = some conduct) {j : Nat}
    {k : ChunkId} (hk : c.reads = some (j, k)) : conduct.Fits (files.slice k) := by
  simp only [conduct?, hk] at hs
  obtain ⟨r, hr, rfl⟩ := Option.map_eq_some_iff.1 hs
  have hopens : Opens s.shared.readers j k.path k.kind := by
    cases c with
    | get | direct =>
      cases hk
      exact hc.1
    | _ => cases hk
  obtain ⟨r', hr', hpath, hkind⟩ := hopens
  rw [hr] at hr'
  cases hr'
  have hshows := h.traffic.shows r (List.mem_of_getElem? hr)
  rw [hpath, hkind] at hshows
  exact fun b b' ho ↦ hshows.outcome ho

/-- Nothing but a handle that is shared asks how many handles there are. -/
theorem step_faithful_unshared (h : s.Faithful files keys) {use : Use} (hu : use.Honest files s)
    (hs : s.step use = some s') (hshare : ∀ i, use ≠ .share i) :
    ∃ keys', s'.Faithful files keys' := by
  have haccounted {m : Move} (hm : ∀ i, m ≠ .share i) (ht : s.traffic.step m = some s'.traffic) :
      s'.traffic.Accounted :=
    Traffic.step_accounted_unshared h.traffic.accounted ht hm
  cases use with
  | openReader r =>
    cases hs
    refine ⟨keys, h.onReaders (fun r' hr ↦ ?_) fun i path kind ho ↦ ho.append [r]⟩
    rcases List.mem_append.1 hr with hr | hr
    · exact h.traffic.shows r' hr
    · rw [List.mem_singleton.1 hr]
      exact hu
  | turn i source =>
    cases hs
    exact ⟨keys, h.modify (fun _ ↦ ⟨rfl, rfl⟩) fun r hr ↦
      (h.traffic.shows r (List.mem_of_getElem? hr)).turn (hu r hr)⟩
  | closeReader i =>
    have hs : s.move (.closeReader i) = some s' := hs
    obtain ⟨u, hu, rfl⟩ := Option.map_eq_some_iff.1 hs
    cases hu
    exact ⟨keys, h.modify (fun _ ↦ ⟨rfl, rfl⟩) fun r hr ↦
      (h.traffic.shows r (List.mem_of_getElem? hr)).close⟩
  | wrap i =>
    simp only [step] at hs
    split at hs
    · rename_i r hr
      split at hs
      · rename_i a ha
        cases hs
        refine ⟨keys, h.traffic, fun p hp ↦ ?_⟩
        rcases List.mem_append.1 hp with hp | hp
        · exact h.accesses p hp
        · rw [List.mem_singleton.1 hp]
          obtain ⟨rfl, hpower⟩ := reader_of_wrap ha
          exact ⟨⟨_, hr, rfl, rfl⟩,
            (h.traffic.shows _ (List.mem_of_getElem? hr)).statedChunkSize, hpower⟩
      · cases hs
        exact ⟨keys, h⟩
    · cases hs
  | rebuffer n position =>
    simp only [step] at hs
    split at hs
    · rename_i a i ha
      exact h.begin hs (rebuffer_faithful (h.accesses _ (List.mem_of_getElem? ha)) position)
    · cases hs
  | invalidateIfCached n position =>
    simp only [step] at hs
    split at hs
    · split at hs
      · exact h.begin hs trivial
      · cases hs
        exact ⟨keys, h⟩
    · cases hs
  | invalidateFile path => exact h.begin hs trivial
  | setEnabled on =>
    have hswitched : Faithful { s with cache.enabled := on } files keys := ⟨h.traffic, h.accesses⟩
    exact hswitched.begin hs trivial
  | close => exact h.begin hs trivial
  | evict => exact h.begin hs trivial
  | advance i =>
    simp only [step] at hs
    split at hs
    · rename_i c hi
      obtain ⟨conduct, hc, hmove⟩ := Option.bind_eq_some_iff.1 hs
      refine h.move hmove fun hu ↦ Traffic.advance_faithful h.traffic (fun c' j k hi' hk ↦ ?_) hu
      rw [hi] at hi'
      cases hi'
      exact fits_of_conduct? h (h.traffic.calls c (List.mem_of_getElem? hi)) hc hk
    · cases hs
  | share i => exact absurd rfl (hshare i)
  | reference | release | resetCounters =>
    exact h.evolve hs (Traffic.evolves_of_aside h.traffic.shared rfl) (haccounted (by simp))

theorem step_faithful (h : s.Faithful files keys) {use : Use} (hd : s.Does files use s') :
    ∃ keys', s'.Faithful files keys' := by
  obtain ⟨hu, hs, hm⟩ := hd
  cases use with
  | share i =>
    exact h.evolve hs (Traffic.evolves_of_aside h.traffic.shared rfl)
      fun ht ↦ Traffic.step_accounted h.traffic.accounted ht hm
  | _ => exact step_faithful_unshared h hu hs (by simp)

theorem faithful_of_reaches (h : s.Faithful files keys) (hr : s.Reaches files s') :
    ∃ keys', s'.Faithful files keys' := by
  induction hr with
  | refl => exact ⟨keys, h⟩
  | step use _ hs ih =>
    obtain ⟨keys', ht⟩ := ih
    exact step_faithful ht hs

variable {s₀ : Session}

theorem Faithful.reads (h : s.Faithful files keys) {handle : Handle}
    (hm : handle ∈ s.shared.handles) {asked : ChunkId} (ha : handle.asked = some asked) :
    s.shared.memory.Reads files asked handle.chunk := by
  obtain ⟨k, hk, chunk, hc, hoffset, hblock⟩ := h.traffic.shared.handles handle hm asked ha
  obtain ⟨chunk', b, hc', hb, hview⟩ := Traffic.view?_of_handle h.traffic.accounted hm
  rw [hc] at hc'
  cases hc'
  refine ⟨chunk, hc, hoffset ▸ hk.position, ?_⟩
  rw [hview, hblock b hb, Files.slice, hk.position, hk.path, hk.kind]

theorem reads_of_reaches (h₀ : s₀.Opened) (h : s₀.Reaches files s) {handle : Handle}
    (hm : handle ∈ s.shared.handles) {asked : ChunkId} (ha : handle.asked = some asked) :
    s.shared.memory.Reads files asked handle.chunk := by
  obtain ⟨keys, hs⟩ := faithful_of_reaches (faithful_of_opened h₀) h
  exact hs.reads hm ha

/-- Whenever `rebuffer` returns a handle, through the table or past it, there is one handle more;
and as long as there is that handle, or one that was shared of it, it is of the chunk that the
position lies in and reads what the file has there, whatever else is done. -/
theorem rebuffer_transparent {n j : Nat} {a : Access} {position : UInt64} {handle : Handle}
    {s₁ s₂ s₃ s₄ : Session} (h₀ : s₀.Opened) (h : s₀.Reaches files s)
    (ha : s.accesses[n]? = some (a, j)) (h₁ : s.Does files (.rebuffer n position) s₁)
    (h₂ : s₁.Reaches files s₂) (h₃ : s₂.Gives files s.traffic.calls.length handle s₃)
    (h₄ : s₃.Reaches files s₄) :
    s₃.shared.handles = s₂.shared.handles ++ [handle] ∧
      (handle ∈ s₄.shared.handles →
        s₄.shared.memory.Reads files (a.reader.chunkId position) handle.chunk) := by
  obtain ⟨hasked, hnew⟩ := handle_of_rebuffer ha h₁ h₂ h₃
  have hr : s₀.Reaches files s₄ :=
    (((h.step _ h₁).trans h₂).step _ h₃.step).trans h₄
  exact ⟨hnew, fun hm ↦ reads_of_reaches h₀ hr hm hasked⟩

def handleAt9 : Handle := ⟨0, some ⟨"a", Reader.simpleKind, 9⟩⟩

structure ReturnsAt9 (s₀ s s₁ s₂ s₃ : Session) (a : Access) : Prop where
  opened : s₀.Opened
  before : s₀.Reaches smallFiles s
  access : s.accesses[0]? = some (a, 0)
  call : s.Does smallFiles (.rebuffer 0 9) s₁
  reads : s₁.Reaches smallFiles s₂
  gives : s₂.Gives smallFiles s.traffic.calls.length handleAt9 s₃

theorem exists_returnsAt9 (P : Session → Prop) [DecidablePred P]
    (h : (open? small fun _ ↦ 0).any fun s₀ ↦
      (s₀.run [.openReader (Traffic.smallFile "a" 11), .wrap 0]).any fun s ↦
      (s.traffic.calls.length = 0 ∧ s.accesses.map Prod.snd = [0]) ∧
      (s.run [.rebuffer 0 9]).any fun s₁ ↦
      (s₁.run (List.replicate 8 (.advance 0))).any fun s₂ ↦
      (s₂.run [.advance 0]).any fun s₃ ↦
      s₃.traffic.calls[0]?.bind Call.gave? = some handleAt9 ∧ P s₃) :
    ∃ s₀ s s₁ s₂ s₃ a, ReturnsAt9 s₀ s s₁ s₂ s₃ a ∧ P s₃ := by
  simp only [Option.any_eq_true, decide_eq_true_eq, Bool.decide_and, Bool.and_eq_true] at h
  obtain ⟨s₀, h₀, s, hs, ⟨hcalls, haccesses⟩, s₁, h₁, s₂, h₂, s₃, h₃, hgave, hP⟩ := h
  have hbuilt : Cache.build small.config [] = .ok small := rfl
  have hreach : s₀.Reaches smallFiles s := by
    refine reaches_of_run (fun use hm t ↦ ?_) hs
    simp only [List.mem_cons, List.not_mem_nil, or_false] at hm
    rcases hm with rfl | rfl
    · exact ⟨ByteSource.serves_ofMemory _ _, rfl, rfl, rfl⟩
    · trivial
  obtain ⟨⟨a, j⟩, hj, hzero⟩ := List.map_eq_singleton_iff.1 haccesses
  cases hzero
  refine ⟨s₀, s, s₁, s₂, s₃, a, ⟨opened_of_open? hbuilt h₀, hreach, by rw [hj]; rfl,
    does_of_run rfl h₁, reaches_of_plain rfl h₂, ?_⟩, hP⟩
  rw [hcalls]
  exact ⟨does_of_run rfl h₃, Option.bind_eq_some_iff.1 hgave⟩

/-- A handle that was shared and given up, so that only what was shared is left; then the cache was
turned off, which leaves nothing resident, and another chunk was read past it. -/
theorem rebuffer_transparent_after_sweep :
    ∃ s₀ s s₁ s₂ s₃ s₄ : Session, ∃ a handle, s₀.Opened ∧ s₀.Reaches smallFiles s ∧
      s.accesses[0]? = some (a, 0) ∧ s.Does smallFiles (.rebuffer 0 9) s₁ ∧
      s₁.Reaches smallFiles s₂ ∧ s₂.Gives smallFiles s.traffic.calls.length handle s₃ ∧
      s₃.Reaches smallFiles s₄ ∧ s₄.shared.store.size = 0 ∧ handle ∈ s₄.shared.handles ∧
      s₄.shared.memory.Reads smallFiles (a.reader.chunkId 9) handle.chunk := by
  let rest : List Use := [.share 0, .release 0, .setEnabled false] ++
    List.replicate 5 (.advance 1) ++ [.wrap 0, .rebuffer 1 0, .advance 2, .advance 2]
  obtain ⟨s₀, s, s₁, s₂, s₃, a, hreturns, hrest⟩ := exists_returnsAt9
    (fun s₃ ↦ (s₃.run rest).any fun s₄ ↦
      s₄.shared.store.size = 0 ∧ handleAt9 ∈ s₄.shared.handles) (by decide +kernel)
  obtain ⟨s₄, h₄, hprops⟩ := (Option.any_eq_true _ _).1 hrest
  obtain ⟨hsize, hm⟩ := of_decide_eq_true hprops
  obtain ⟨hopened, hreach, ha, hdoes, hwait, hgives⟩ := hreturns
  have hlast : s₃.Reaches smallFiles s₄ := reaches_of_plain rfl h₄
  exact ⟨s₀, s, s₁, s₂, s₃, s₄, a, handleAt9, hopened, hreach, ha, hdoes, hwait, hgives, hlast,
    hsize, hm, (rebuffer_transparent hopened hreach ha hdoes hwait hgives hlast).2 hm⟩

theorem steps_share {i : Nat} {handle : Handle} (hi : s.shared.handles[i]? = some handle)
    (n k : Nat) :
    (List.replicate n (.share i)).foldlM step
        { s with traffic := s.traffic.shareMany handle k } =
      some { s with traffic := s.traffic.shareMany handle (k + n) } := by
  induction n generalizing k with
  | zero => rfl
  | succ n ih =>
    have hstep : step { s with traffic := s.traffic.shareMany handle k } (.share i) =
        some { s with traffic := s.traffic.shareMany handle (k + 1) } := by
      simp only [step, move, Traffic.step_shareMany hi, Option.map_some]
    rw [List.replicate_succ, List.foldlM_cons, hstep]
    have hrest := ih (k + 1)
    rw [Nat.add_right_comm] at hrest
    exact hrest

/-- The handle that `rebuffer` returned is shared until the count of its chunk is back at zero. It
is there still, and nothing can be read through it. -/
theorem handle_unreadable_when_wrapped :
    ∃ s₀ s s₁ s₂ s₃ s₄ : Session, ∃ a handle, s₀.Opened ∧ s₀.Reaches smallFiles s ∧
      s.accesses[0]? = some (a, 0) ∧ s.Does smallFiles (.rebuffer 0 9) s₁ ∧
      s₁.Reaches smallFiles s₂ ∧ s₂.Gives smallFiles s.traffic.calls.length handle s₃ ∧
      (List.replicate (UInt32.size - 2) (.share 0)).foldlM step s₃ = some s₄ ∧
      handle ∈ s₄.shared.handles ∧ s₄.shared.memory.view? handle.chunk = none ∧
      ¬ s₄.shared.memory.Reads smallFiles (a.reader.chunkId 9) handle.chunk := by
  obtain ⟨s₀, s, s₁, s₂, s₃, a, hreturns, hhandles, href⟩ := exists_returnsAt9
    (fun s₃ ↦ s₃.shared.handles = [handleAt9] ∧
      (s₃.shared.memory.chunk? 0).map Chunk.references = some 2) (by decide +kernel)
  obtain ⟨chunk, hc, htwice⟩ := Option.map_eq_some_iff.1 href
  -- How often it is shared stays a variable, so that nothing counts up to it.
  obtain ⟨n, hn⟩ : ∃ n, n + 2 = UInt32.size := ⟨UInt32.size - 2, by decide⟩
  have hi : s₃.shared.handles[0]? = some handleAt9 := by rw [hhandles]; rfl
  have hsteps := steps_share hi n 0
  rw [Traffic.shareMany_zero, Nat.zero_add] at hsteps
  have hat := Memory.chunk?_shareMany hc n
  have hzero : (chunk.shareMany n).references = 0 := by
    rw [Chunk.shareMany, htwice]
    exact (UInt32.ofNat_add 2 n).symm.trans (UInt32.ofNat_eq_zero (by omega))
  have hview : (s₃.traffic.shareMany handleAt9 n).shared.memory.view? 0 = none := by
    show (s₃.shared.memory.shareMany 0 n).view? 0 = none
    rw [Memory.view?, hat, Option.bind_some, Chunk.view?, if_pos hzero]
  obtain ⟨hopened, hreach, ha, hdoes, hwait, hgives⟩ := hreturns
  rw [← hn, Nat.add_sub_cancel]
  refine ⟨s₀, s, s₁, s₂, s₃, _, a, handleAt9, hopened, hreach, ha, hdoes, hwait, hgives, hsteps,
    List.mem_append_left _ (List.mem_of_getElem? hi), hview, ?_⟩
  rintro ⟨_, -, -, hreads⟩
  cases hview.symm.trans hreads

end Session
end ReadCache
