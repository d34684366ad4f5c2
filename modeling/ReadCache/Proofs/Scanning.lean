import ReadCache.Proofs.Crew
import ReadCache.Proofs.Invalidation

namespace ReadCache

namespace Call
variable {x : Call}

theorem held_of_ended (h : x.ended = true) : x.held = [] ∧ x.loose = 0 := by
  cases x with
  | get k reader goal stage =>
    cases stage with
    | answered | holding => exact ⟨rfl, rfl⟩
    | _ => cases goal <;> cases h
  | direct asked k reader stage =>
    cases stage with
    | ended => exact ⟨rfl, rfl⟩
    | _ => cases h
  | invalidate k stage =>
    cases stage with
    | ended => exact ⟨rfl, rfl⟩
    | _ => cases h
  | sweep matches? stage =>
    cases stage with
    | ended => exact ⟨rfl, rfl⟩
    | _ => cases h
  | evict p =>
    cases p with
    | left => exact ⟨rfl, rfl⟩
    | _ => cases h

theorem step_of_ended {c : Conduct} {s : Shared} (h : x.ended = true) : x.step c s = none := by
  cases x with
  | get k reader goal stage =>
    cases stage with
    | answered result =>
      cases result with
      | error f => cases goal <;> rfl
      | ok chunk =>
        cases goal with
        | chunk => rfl
        | handle => cases h
    | holding => cases goal <;> rfl
    | _ => cases goal <;> cases h
  | direct asked k reader stage =>
    cases stage with
    | ended => rfl
    | _ => cases h
  | invalidate k stage => exact step_eq_none_of_removes rfl h
  | sweep matches? stage => exact step_eq_none_of_removes rfl h
  | evict p =>
    cases p with
    | left => rfl
    | _ => cases h

end Call

theorem Store.residents_purge_all (s : Store) : (s.purge fun _ ↦ true).residents = [] := by
  simp [residents, purge, ShardedMap.toList_keep, residentsOf]

namespace Traffic
variable {t : Traffic}

theorem at_rest (h : t.idle = true) : t.held = [] ∧ t.loose = 0 ∧ t.owes = 0 := by
  have hended (c : Call) (hc : c ∈ t.calls) : c.ended = true := List.all_eq_true.1 h c hc
  refine ⟨?_, ?_, ?_⟩
  · rw [held, List.flatMap_eq_nil_iff]
    exact fun c hc ↦ (Call.held_of_ended (hended c hc)).1
  · rw [loose, List.sum_eq_zero_iff]
    rintro n hn
    obtain ⟨c, hc, rfl⟩ := List.mem_map.1 hn
    exact (Call.held_of_ended (hended c hc)).2
  · rw [owes, List.sum_eq_zero_iff]
    rintro n hn
    obtain ⟨c, hc, rfl⟩ := List.mem_map.1 hn
    exact Call.owes_of_ended (hended c hc)

theorem balanced_after_sweep (h : t.Accounted) (hidle : t.idle = true)
    (hhandles : t.shared.handles = []) :
    t.shared.engine.invalidateAll.2.memory.pool.acquired =
      t.shared.engine.invalidateAll.2.memory.pool.released := by
  obtain ⟨hheld, hloose, -⟩ := at_rest hidle
  obtain ⟨s, hrun, he, hsame, -⟩ := Sweep.uninterrupted (fun _ ↦ true) t.shared
  have hbefore : t.shared.Accounted (Sweep.held (.clear 0 []) ++ []) 0 := by
    rw [Accounted, hheld, hloose] at h
    exact h
  have hafter := hrun.accounted Sweep.held Sweep.step_accounted hbefore
  have hstore : s.store.residents = [] := by
    rw [Shared.store, he, Engine.invalidateMatching_eq]
    exact Store.residents_purge_all _
  have hrefs : s.refs (Sweep.held (.ended (t.shared.engine.invalidateMatching fun _ ↦ true).1) ++
      []) = [] := by
    simp [Shared.refs, Store.chunks, Store.entries, hstore, hsame.handles, hhandles, Sweep.held]
  have halive : s.memory.alive = 0 := by
    rw [Memory.alive, Array.countP_eq_zero]
    intro chunk hc hsome
    obtain ⟨c, hlt, rfl⟩ := Array.mem_iff_getElem.1 hc
    have hkept := (hafter.ledger.counts.kept c _ (Array.getElem?_eq_getElem hlt)).1 hsome
    rw [hrefs] at hkept
    cases hkept
  have hbalanced := hafter.ledger.balanced
  rw [Memory.Balanced, halive] at hbalanced
  rw [Engine.invalidateAll, ← he]
  exact hbalanced

end Traffic

namespace Scan
variable {files : Files} {accesses : List (Access × Nat)} {plan : List (List Stop)} {c d : Crew}

theorem Worker.Succeeded.counts {w : Worker} (h : w.Succeeded) (size : Stop → Nat) :
    w.phase.handle? = none ∧ w.phase.call? = none ∧ w.requested = w.route ∧
      w.chunks = w.route.length ∧ w.bytes size = (w.route.map size).sum := by
  obtain ⟨made, rest, phase⟩ := w
  obtain ⟨rfl, rfl⟩ := h
  simp [route, requested, chunks, bytes, Phase.stop?, Phase.counted?, Phase.weighed?, Phase.handle?,
    Phase.call?]

theorem Crew.Sound.ended (h : c.Sound files accesses plan) (hdone : ∀ w ∈ c.workers, w.Succeeded) :
    c.session.shared.handles = [] ∧ c.session.traffic.idle = true ∧
      c.tally.chunks = (plan.map List.length).sum ∧
      c.tally.bytes = (plan.map fun stops ↦ (stops.map (Stop.size files accesses)).sum).sum := by
  have hcounts := fun w hw ↦ (hdone w hw).counts (Stop.size files accesses)
  refine ⟨?_, ?_, ?_, ?_⟩
  · have hnone : c.workers.flatMap (·.phase.handle?.toList) = [] := by
      rw [List.flatMap_eq_nil_iff]
      intro w hw
      rw [(hcounts w hw).1]
      rfl
    exact (hnone ▸ h.handles).eq_nil
  · rw [Traffic.idle, List.all_eq_true]
    intro call hcall
    obtain ⟨i, hi⟩ := List.mem_iff_getElem?.1 hcall
    rcases h.calls i call hi with hended | ⟨w, hw, hwaits⟩
    · exact hended
    · rw [(hcounts w hw).2.1] at hwaits
      cases hwaits
  · rw [h.chunks, ← h.routes, List.map_map]
    exact congrArg List.sum (List.map_congr_left fun w hw ↦ (hcounts w hw).2.2.2.1)
  · rw [h.bytes, ← h.routes, List.map_map]
    exact congrArg List.sum (List.map_congr_left fun w hw ↦ (hcounts w hw).2.2.2.2)

variable {Name : Type} [FileName Name]

/-- What a scan finds under the names of the files: files that do not change, of less than `2 ^ 63`
bytes. Each may fail to open, and a read may fail or give less than it could. -/
def Finds (openSource : Name → Except Error ByteSource) (data : Name → ByteArray) : Prop :=
  ∀ name source, openSource name = .ok source →
    source.path = FileName.text name ∧ source.Serves (data name) ∧
      (∀ length, source.size = .ok length → length = .ofNat (data name).size) ∧
      (data name).size < 2 ^ 63

/-- Files whose paths have one text have the same bytes. -/
def Discernible (names : List Name) (data : Name → ByteArray) : Prop :=
  ∀ a ∈ names, ∀ b ∈ names, FileName.text a = FileName.text b → data a = data b

theorem Discernible.of_injOn {names : List Name} {data : Name → ByteArray}
    (h : Set.InjOn (FileName.text : Name → String) {name | name ∈ names}) :
    Discernible names data := by
  intro a ha b hb htext
  rw [h ha hb htext]

def bytesAt (names : List Name) (data : Name → ByteArray) (path : String) : ByteArray :=
  ((names.find? (FileName.text · = path)).map data).getD ByteArray.empty

theorem Discernible.bytesAt_text {names : List Name} {data : Name → ByteArray}
    (h : Discernible names data) {name : Name} (hm : name ∈ names) :
    bytesAt names data (FileName.text name) = data name := by
  unfold bytesAt
  cases hfound : names.find? (FileName.text · = FileName.text name) with
  | none => simpa using List.find?_eq_none.1 hfound name hm
  | some first =>
    have htext : FileName.text first = FileName.text name := by simpa using List.find?_some hfound
    exact h first (List.mem_of_find?_eq_some hfound) name hm htext

/-- The files as the cache goes by them. -/
def images (names : List Name) (data : Name → ByteArray) (chunkSize : UInt64) : Files :=
  fun path _ ↦ ⟨bytesAt names data path, .ofNat (bytesAt names data path).size, chunkSize⟩

/-- A file of that name that was opened to be read in chunks of that size. -/
structure File.Opened (names : List Name) (data : Name → ByteArray) (chunkSize : UInt64)
    (name : Name) (file : File) : Prop where
  source : file.access.reader.source = file.source
  path : file.access.reader.path = FileName.text name
  bytes : bytesAt names data (FileName.text name) = data name
  shows : file.access.reader.Shows
    (images names data chunkSize (FileName.text name) Reader.simpleKind)
  power : isPowerOfTwo chunkSize = true
  length : file.length = (data name).size
  bound : (data name).size < 2 ^ 63

theorem Reader.open?_ok {source : ByteSource} {chunkSize : UInt64} {r : Reader}
    (h : Reader.open? source chunkSize = .ok r) :
    ∃ length, source.size = .ok length ∧ Reader.withLength? source chunkSize length = .ok r := by
  cases hsize : source.size with
  | error e => simp [Reader.open?, hsize, bind, Except.bind] at h
  | ok length => exact ⟨length, rfl, by simpa [Reader.open?, hsize, bind, Except.bind] using h⟩

theorem openFile_ok {cache : Cache} {chunkSize : UInt64} {name : Name}
    {source? : Except Error ByteSource} {file : File}
    (h : openFile cache chunkSize name source? = .ok file) :
    ∃ source r, source? = .ok source ∧ Reader.open? source chunkSize = .ok r ∧
      cache.wrap r = .ok file.access ∧ file.source = source ∧ file.length = r.length.toNat := by
  cases source? with
  | error e => cases h
  | ok source =>
    cases hr : Reader.open? source chunkSize with
    | error e => simp [openFile, hr, Except.mapError, bind, Except.bind] at h
    | ok r =>
      cases ha : cache.wrap r with
      | error e => simp [openFile, hr, ha, Except.mapError, bind, Except.bind] at h
      | ok a =>
        simp only [openFile, hr, ha, Except.mapError, bind, Except.bind, pure, Except.pure,
          Except.ok.injEq] at h
        subst h
        exact ⟨source, r, rfl, hr, ha, rfl, rfl⟩

theorem File.opened_of_openFile {openSource : Name → Except Error ByteSource}
    {data : Name → ByteArray} {cache : Cache} {chunkSize : UInt64} {names : List Name} {name : Name}
    {file : File} (hf : Finds openSource data) (hd : Discernible names data) (hm : name ∈ names)
    (h : openFile cache chunkSize name (openSource name) = .ok file) :
    file.Opened names data chunkSize name := by
  obtain ⟨source, r, hsource, hr, ha, rfl, hlength⟩ := openFile_ok h
  obtain ⟨hpath, hserves, hsize, hbound⟩ := hf name _ hsource
  obtain ⟨length, hlen, hr⟩ := Reader.open?_ok hr
  obtain rfl := hsize length hlen
  obtain ⟨hreader, -⟩ := Session.reader_of_wrap ha
  have hbytes := hd.bytesAt_text hm
  have hshows : r.Shows (images names data chunkSize (FileName.text name) Reader.simpleKind) := by
    simp only [images, hbytes]
    exact Reader.shows_withLength? hserves hr
  have hnat : (UInt64.ofNat (data name).size).toNat = (data name).size :=
    UInt64.toNat_ofNat_of_lt' (Nat.lt_trans hbound (by decide))
  simp only [Reader.withLength?] at hr
  split at hr
  · rename_i hpower
    cases hr
    refine ⟨by rw [hreader], by rw [hreader]; exact hpath, hbytes, by rw [hreader]; exact hshows,
      hpower, hlength.trans hnat, hbound⟩
  · cases hr

theorem forall₂_of_mapM {α β ε : Type} {f : α → Except ε β} {P : α → β → Prop} {l : List α}
    {l' : List β} (hp : ∀ a ∈ l, ∀ b, f a = .ok b → P a b) (h : l.mapM f = .ok l') :
    List.Forall₂ P l l' := by
  induction l generalizing l' with
  | nil =>
    cases h
    exact .nil
  | cons a l ih =>
    rw [List.mapM_cons] at h
    cases hb : f a with
    | error e => simp [hb, bind, Except.bind] at h
    | ok b =>
      cases hrest : l.mapM f with
      | error e => simp [hb, hrest, bind, Except.bind] at h
      | ok rest =>
        simp only [hb, hrest, bind, Except.bind, pure, Except.pure, Except.ok.injEq] at h
        subst h
        exact .cons (hp a List.mem_cons_self b hb)
          (ih (fun a' hm ↦ hp a' (List.mem_cons_of_mem a hm)) hrest)

def tour (lengths : List Nat) (step worker : Nat) : List Stop :=
  lengths.zipIdx.flatMap fun v ↦ (visits v.1 step worker).map fun p ↦ ⟨v.2, .ofNat p⟩

def route (lengths : List Nat) (step passes worker : Nat) : List Stop :=
  (List.replicate passes (tour lengths step worker)).flatten

theorem sum_route {lengths : List Nat} {step worker : Nat} (passes : Nat) {f : Stop → Nat}
    {total : Nat → Nat}
    (h : ∀ length file, lengths[file]? = some length →
      ((visits length step worker).map fun p ↦ f ⟨file, .ofNat p⟩).sum = total length) :
    ((route lengths step passes worker).map f).sum = passes * (lengths.map total).sum := by
  have htour : ((tour lengths step worker).map f).sum = (lengths.map total).sum := by
    have hfiles :=
      calc lengths.map total
          = (lengths.zipIdx.map Prod.fst).map total := by rw [List.zipIdx_map_fst]
        _ = lengths.zipIdx.map fun v ↦ total v.1 := List.map_map
        _ = lengths.zipIdx.map fun v ↦
              ((visits v.1 step worker).map fun p ↦ f ⟨v.2, .ofNat p⟩).sum :=
            List.map_congr_left fun v hv ↦ (h v.1 v.2 (List.mem_zipIdx_iff_getElem?.1 hv)).symm
    rw [hfiles, tour, List.map_flatMap, List.flatMap_def, List.sum_flatten, List.map_map]
    simp only [List.map_map, Function.comp_def]
  induction passes with
  | zero => simp [route]
  | succ passes ih =>
    have hroute : route lengths step (passes + 1) worker =
        tour lengths step worker ++ route lengths step passes worker := by
      simp [route, List.replicate_succ]
    rw [hroute, List.map_append, List.sum_append, htour, ih, Nat.add_mul]
    omega

theorem length_route (lengths : List Nat) (step passes worker : Nat) :
    (route lengths step passes worker).length =
      passes * (lengths.map (chunkCount · step)).sum := by
  have hsum : ((route lengths step passes worker).map fun _ ↦ 1).sum =
      passes * (lengths.map (chunkCount · step)).sum := by
    apply sum_route passes
    intro length file _
    simp [visits, Function.comp_def]
  simpa using hsum

def accessesTo (files : List File) : List (Access × Nat) := (files.map File.access).zipIdx

/-- The files are opened, and the workers are about to begin. -/
def Crew.start (o : Options Name) (hash : ChunkId → UInt64) (ties : Store.Ties)
    (openSource : Name → Except Error ByteSource) : Except Failure Crew := do
  let cache ← (Cache.build o.config []).mapError .configuration
  let some session := Session.open? cache hash ties | throw .workerPanicked
  let files ← o.files.mapM fun name ↦ openFile cache o.chunkSize name (openSource name)
  let lengths := files.map File.length
  return {
    session :=
      { session.onReaders fun _ ↦ files.map (·.access.reader) with accesses := accessesTo files }
    workers := (List.range o.threads.toNat).map fun worker ↦
      { rest := route lengths o.chunkSize.toNat o.passes.toNat worker } }

def Crew.report (o : Options Name) (elapsedMs : Nat) (c : Crew) : Report :=
  let e := c.session.shared.engine
  let pool := e.invalidateAll.2.memory.pool
  { files := o.files.length
    threads := o.threads.toNat
    passes := o.passes.toNat
    cacheEnabled := c.session.cache.isEnabled
    chunksRead := c.tally.chunks
    bytesRead := c.tally.bytes
    elapsedMs
    cache := e.store.report
    poolAcquired := pool.acquired
    poolReleased := pool.released
    poolOutstanding := pool.outstanding }

variable {o : Options Name} {hash : ChunkId → UInt64} {ties : Store.Ties}
variable {openSource : Name → Except Error ByteSource} {data : Name → ByteArray}

theorem Crew.start_ok (h : start o hash ties openSource = .ok c) :
    ∃ cache s opened, Cache.build o.config [] = .ok cache ∧
      Session.open? cache hash ties = some s ∧
      o.files.mapM (fun name ↦ openFile cache o.chunkSize name (openSource name)) = .ok opened ∧
      c = ⟨{ s.onReaders fun _ ↦ opened.map (·.access.reader) with accesses := accessesTo opened },
        (List.range o.threads.toNat).map fun worker ↦
          { rest := route (opened.map File.length) o.chunkSize.toNat o.passes.toNat worker },
        {}⟩ := by
  cases hb : Cache.build o.config [] with
  | error e => simp [start, hb, Except.mapError, bind, Except.bind] at h
  | ok cache =>
    cases hs : Session.open? cache hash ties with
    | none => simp [start, hb, hs, Except.mapError, bind, Except.bind, throw, throwThe,
        MonadExceptOf.throw] at h
    | some s =>
      cases hfiles : o.files.mapM fun name ↦ openFile cache o.chunkSize name (openSource name) with
      | error f => simp [start, hb, hs, hfiles, Except.mapError, bind, Except.bind] at h
      | ok opened =>
        simp only [start, hb, hs, hfiles, Except.mapError, bind, Except.bind, pure, Except.pure,
          Except.ok.injEq] at h
        exact ⟨cache, s, opened, rfl, hs, hfiles, h.symm⟩

theorem opened_of_mapM {cache : Cache} {chunkSize : UInt64} {names : List Name}
    {opened : List File} (hf : Finds openSource data) (hd : Discernible names data)
    (h : names.mapM (fun name ↦ openFile cache chunkSize name (openSource name)) = .ok opened) :
    List.Forall₂ (File.Opened names data chunkSize) names opened :=
  forall₂_of_mapM (fun _ hm _ hopen ↦ File.opened_of_openFile hf hd hm hopen) h

variable {names listed : List Name}

theorem lengths_of_opened {chunkSize : UInt64} {opened : List File}
    (h : List.Forall₂ (File.Opened names data chunkSize) listed opened) :
    opened.map File.length = listed.map fun name ↦ (data name).size := by
  induction h with
  | nil => rfl
  | cons hfile _ ih => rw [List.map_cons, List.map_cons, hfile.length, ih]

theorem opened_at {chunkSize : UInt64} {opened : List File} {i : Nat} {file : File}
    (h : List.Forall₂ (File.Opened names data chunkSize) listed opened)
    (hi : opened[i]? = some file) :
    ∃ name, listed[i]? = some name ∧ file.Opened names data chunkSize name := by
  induction h generalizing i with
  | nil => cases hi
  | cons hfile _ ih =>
    cases i with
    | zero =>
      cases hi
      exact ⟨_, rfl, hfile⟩
    | succ i => exact ih hi

theorem exists_opened {chunkSize : UInt64} {opened : List File} {file : File}
    (h : List.Forall₂ (File.Opened names data chunkSize) listed opened) (hm : file ∈ opened) :
    ∃ name, file.Opened names data chunkSize name := by
  obtain ⟨i, hi⟩ := List.mem_iff_getElem?.1 hm
  obtain ⟨name, -, hfile⟩ := opened_at h hi
  exact ⟨name, hfile⟩

theorem accessesTo_get? {opened : List File} {i : Nat} {p : Access × Nat} :
    (accessesTo opened)[i]? = some p ↔ ∃ file, opened[i]? = some file ∧ p = (file.access, i) := by
  simp [accessesTo, eq_comm]

theorem Stop.size_eq {step : UInt64} {opened : List File} {file : File} {name : Name} {i p : Nat}
    (hfile : opened[i]? = some file) (h : file.Opened names data step name) (hp : p < file.length) :
    Stop.size (images names data step) (accessesTo opened) ⟨i, .ofNat p⟩ =
      chunkSize file.length step.toNat (p - p % step.toNat) := by
  have hbound := h.bound
  have hlength := h.length
  have hword : UInt64.size = 2 ^ 63 + 2 ^ 63 := rfl
  have haccess : (accessesTo opened)[i]? = some (file.access, i) :=
    accessesTo_get?.2 ⟨file, hfile, rfl⟩
  have hposition : (UInt64.ofNat p).toNat = p := UInt64.toNat_ofNat_of_lt' (by omega)
  have hsize : (UInt64.ofNat (data name).size).toNat = (data name).size :=
    UInt64.toNat_ofNat_of_lt' (by omega)
  simp only [size, asked?, haccess, Option.map_some, Reader.chunkId, images, h.path, h.bytes,
    Image.slice, Image.start, ByteArray.size_extract, hposition, hsize, chunkSize, hlength]
  omega

theorem grants_of_opened {step : UInt64} {opened : List File}
    (h : List.Forall₂ (File.Opened names data step) listed opened) {p : Access × Nat}
    (hp : p ∈ accessesTo opened) :
    Session.Grants (images names data step) (opened.map (·.access.reader)) p.1 p.2 := by
  obtain ⟨i, hi⟩ := List.mem_iff_getElem?.1 hp
  obtain ⟨file, hfile, rfl⟩ := accessesTo_get?.1 hi
  obtain ⟨name, hopened⟩ := exists_opened h (List.mem_of_getElem? hfile)
  have hsize : file.access.reader.statedChunkSize = step := hopened.shows.statedChunkSize
  refine ⟨⟨file.access.reader, by simp [hfile], rfl, rfl⟩, hsize, ?_⟩
  rw [hsize]
  exact hopened.power

theorem Crew.sound_of_opened {step : UInt64} {opened : List File} {cache : Cache} {s : Session}
    {config : Config} (hb : Cache.build config [] = .ok cache)
    (hs : Session.open? cache hash ties = some s)
    (h : List.Forall₂ (File.Opened names data step) listed opened) (routes : List (List Stop)) :
    Crew.Sound (images names data step) (accessesTo opened) routes
      ⟨{ s.onReaders fun _ ↦ opened.map (·.access.reader) with accesses := accessesTo opened },
        routes.map fun rest ↦ { rest }, {}⟩ := by
  have hopened := Session.opened_of_open? hb hs
  have hinitial := hopened.initial
  have hweighed := Traffic.weighed_of_initial hinitial
  have hreaders : Session.Faithful (s.onReaders fun _ ↦ opened.map (·.access.reader))
      (images names data step) [] := by
    apply (Session.faithful_of_opened hopened).onReaders
    · intro r hr
      obtain ⟨file, hm, rfl⟩ := List.mem_map.1 hr
      obtain ⟨name, hfile⟩ := exists_opened h hm
      rw [hfile.path]
      exact hfile.shows
    · intro i path kind ho
      obtain ⟨r, hr, -⟩ := ho
      rw [hopened.readers] at hr
      cases hr
  have hready (w : Worker) (hw : w ∈ routes.map fun rest ↦ ({ rest } : Worker)) :
      w.phase = .ready := by
    obtain ⟨rest, -, rfl⟩ := List.mem_map.1 hw
    rfl
  refine ⟨⟨[], hreaders.traffic, fun p ↦ grants_of_opened h⟩, ⟨hweighed.proper, hweighed.weight⟩,
    rfl, ?_, ?_, ?_, ?_, ?_, ?_, ?_⟩
  · simp [Worker.route, Worker.requested, Phase.stop?, Function.comp_def]
  · intro w hw stop i hwaits
    rw [hready w hw] at hwaits
    cases hwaits
  · intro w hw stop handle hstop
    rw [hready w hw] at hstop
    cases hstop
  · have hnone : (routes.map fun rest ↦ ({ rest } : Worker)).flatMap (·.phase.handle?.toList) =
        [] := by
      simp [Phase.handle?]
    rw [hnone]
    exact List.Perm.of_eq hinitial.handles
  · intro i call hcall
    have hcalls : s.traffic.calls[i]? = some call := hcall
    rw [hinitial.calls] at hcalls
    cases hcalls
  · simp [Worker.chunks, Phase.counted?, Function.comp_def]
  · simp [Worker.bytes, Phase.weighed?, Function.comp_def]

theorem sum_sizes {step : UInt64} {opened : List File}
    (h : List.Forall₂ (File.Opened names data step) listed opened) (passes worker : Nat) :
    ((route (opened.map File.length) step.toNat passes worker).map
        (Stop.size (images names data step) (accessesTo opened))).sum =
      passes * (opened.map File.length).sum := by
  have hfile (length i : Nat) (hi : (opened.map File.length)[i]? = some length) :
      ((visits length step.toNat worker).map fun p ↦
        Stop.size (images names data step) (accessesTo opened) ⟨i, .ofNat p⟩).sum = length := by
    rw [List.getElem?_map] at hi
    obtain ⟨file, hfile, rfl⟩ := Option.map_eq_some_iff.1 hi
    obtain ⟨name, hopened⟩ := exists_opened h (List.mem_of_getElem? hfile)
    obtain ⟨k, -, hpow⟩ := Reader.toNat_of_isPowerOfTwo hopened.power
    have hpos : 0 < step.toNat := hpow ▸ Nat.two_pow_pos k
    have hsizes : (visits file.length step.toNat worker).map (fun p ↦
        Stop.size (images names data step) (accessesTo opened) ⟨i, .ofNat p⟩) =
        (visits file.length step.toNat worker).map fun p ↦
          chunkSize file.length step.toNat (p - p % step.toNat) :=
      List.map_congr_left fun p hp ↦ Stop.size_eq hfile hopened (lt_of_mem_visits hpos hp)
    rw [hsizes]
    exact sum_chunkSize hpos worker
  rw [sum_route passes hfile, List.map_id']

theorem Crew.sound_of_start (hf : Finds openSource data) (hd : Discernible o.files data)
    (h : start o hash ties openSource = .ok c) :
    ∃ opened, List.Forall₂ (File.Opened o.files data o.chunkSize) o.files opened ∧
      c.Sound (images o.files data o.chunkSize) (accessesTo opened) ((List.range o.threads.toNat).map
        (route (opened.map File.length) o.chunkSize.toNat o.passes.toNat)) := by
  obtain ⟨cache, s, opened, hb, hs, hfiles, rfl⟩ := start_ok h
  have hopened := opened_of_mapM hf hd hfiles
  have hsound := sound_of_opened hb hs hopened ((List.range o.threads.toNat).map
    (route (opened.map File.length) o.chunkSize.toNat o.passes.toNat))
  rw [List.map_map] at hsound
  exact ⟨opened, hopened, hsound⟩

theorem Crew.report_of_succeeded (hf : Finds openSource data) (hd : Discernible o.files data)
    (h : start o hash ties openSource = .ok c)
    (hr : c.Reaches (images o.files data o.chunkSize) d) (hdone : ∀ w ∈ d.workers, w.Succeeded)
    (elapsedMs : Nat) :
    let lengths := o.files.map fun name ↦ (data name).size
    let report := d.report o elapsedMs
    report.chunksRead = o.threads.toNat * o.passes.toNat *
        (lengths.map (chunkCount · o.chunkSize.toNat)).sum ∧
      report.bytesRead = o.threads.toNat * o.passes.toNat * lengths.sum ∧
      report.poolAcquired = report.poolReleased ∧ report.poolOutstanding = 0 ∧
      report.leak? = none := by
  intro lengths report
  obtain ⟨opened, hopened, hsound⟩ := sound_of_start hf hd h
  have hlengths : opened.map File.length = lengths := lengths_of_opened hopened
  have hsizes := sum_sizes hopened o.passes.toNat
  rw [hlengths] at hsound hsizes
  obtain ⟨hsound, -⟩ := sound_of_reaches hsound hr
  obtain ⟨hhandles, hidle, hchunks, hbytes⟩ := hsound.ended hdone
  obtain ⟨keys, hfaithful⟩ := hsound.faithful
  have hbalanced := Traffic.balanced_after_sweep hfaithful.traffic.accounted hidle hhandles
  have hout : report.poolOutstanding = 0 := by
    show Pool.outstanding _ = 0
    rw [Pool.outstanding, hbalanced, Nat.sub_self]
  refine ⟨?_, ?_, hbalanced, hout, ?_⟩
  · show d.tally.chunks = _
    rw [hchunks, List.map_map, Nat.mul_assoc]
    have hroutes : (List.range o.threads.toNat).map
        (List.length ∘ route lengths o.chunkSize.toNat o.passes.toNat) =
        (List.range o.threads.toNat).map fun _ ↦
          o.passes.toNat * (lengths.map (chunkCount · o.chunkSize.toNat)).sum :=
      List.map_congr_left fun worker _ ↦ length_route lengths _ _ worker
    rw [hroutes, List.map_const', List.sum_replicate, List.length_range, smul_eq_mul]
  · show d.tally.bytes = _
    rw [hbytes, List.map_map, Nat.mul_assoc]
    have hroutes := List.map_congr_left (l := List.range o.threads.toNat) fun worker _ ↦
      hsizes worker
    simp only [Function.comp_def]
    rw [hroutes, List.map_const', List.sum_replicate, List.length_range, smul_eq_mul]
  · rw [Report.leak?, if_pos hout]

end Scan
end ReadCache
