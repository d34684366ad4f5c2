import ReadCache.Proofs.FileNames
import ReadCache.Proofs.OneByOne

namespace ReadCache.Scan

variable {Name : Type} [FileName Name] {o : Options Name} {hash : ChunkId → UInt64}
variable {ties : Store.Ties} {openSource : Name → Except Error ByteSource} {data : Name → ByteArray}
variable {names listed : List Name} {c d : Crew} {opened : List File}
variable {files : Files} {accesses : List (Access × Nat)} {plan : List (List Stop)}

theorem bounds_of_opened {step : UInt64}
    (h : List.Forall₂ (File.Opened names data step) listed opened) {length : Nat}
    (hm : length ∈ listed.map fun name ↦ (data name).size) :
    length < 2 ^ 63 ∧ isPowerOfTwo step = true := by
  rw [← lengths_of_opened h] at hm
  obtain ⟨file, hfile, rfl⟩ := List.mem_map.1 hm
  obtain ⟨name, hname⟩ := exists_opened h hfile
  exact ⟨hname.length ▸ hname.bound, hname.power⟩

theorem visits_of_bounds {step : UInt64} {length worker : Nat} (hlength : length < 2 ^ 63)
    (hworker : worker < 2 ^ 63) (hstep : isPowerOfTwo step = true) :
    (((visits length step.toNat worker).map fun p ↦ p - p % step.toNat).Nodup ∧
      ∀ n, n ∈ (visits length step.toNat worker).map (fun p ↦ p - p % step.toNat) ↔
        step.toNat ∣ n ∧ n < length) ∧
    ∀ i < chunkCount length step.toNat, position length step.toNat worker i < length ∧
      position? (.ofNat length) step (.ofNat worker) (.ofNat i) =
        some (.ofNat (position length step.toNat worker i)) := by
  obtain ⟨k, -, hpow⟩ := Reader.toNat_of_isPowerOfTwo hstep
  have hpos : 0 < step.toNat := hpow ▸ Nat.two_pow_pos k
  refine ⟨starts_visits hpos worker, ?_⟩
  intro i hi
  have hinside := (position_mem hpos worker hi).2.1
  have hfirst := (lt_chunkCount hpos i).1 hi
  have hself := Nat.le_mul_of_pos_right i hpos
  have hword : UInt64.size = 2 ^ 63 + 2 ^ 63 := rfl
  have hlengthNat : (UInt64.ofNat length).toNat = length :=
    UInt64.toNat_ofNat_of_lt' (by omega)
  have hworkerNat : (UInt64.ofNat worker).toNat = worker :=
    UInt64.toNat_ofNat_of_lt' (by omega)
  have hiNat : (UInt64.ofNat i).toNat = i := UInt64.toNat_ofNat_of_lt' (by omega)
  have hcomputed := @position?_eq (.ofNat length) step (.ofNat worker) (.ofNat i)
  rw [hlengthNat, hworkerNat, hiNat] at hcomputed
  obtain ⟨p, hp, hpNat⟩ := hcomputed hlength hworker hstep hi
  refine ⟨hinside, hp.trans ?_⟩
  rw [← hpNat, UInt64.ofNat_toNat]

theorem Crew.Sound.requested_prefix (h : d.Sound files accesses plan) {worker : Nat} {w : Worker}
    (hw : d.workers[worker]? = some w) :
    ∃ stops, plan[worker]? = some stops ∧ w.requested <+: stops ∧
      (w.Succeeded → w.requested = stops) := by
  have hplan : plan[worker]? = some w.route := by
    rw [← h.routes, List.getElem?_map, hw]
    rfl
  exact ⟨w.route, hplan, List.prefix_append _ _,
    fun hdone ↦ (hdone.counts fun _ ↦ 0).2.2.1⟩

theorem Crew.Sound.served {step : UInt64}
    (hopened : List.Forall₂ (File.Opened names data step) listed opened)
    (h : d.Sound (images names data step) (accessesTo opened) plan) {w : Worker}
    (hw : w ∈ d.workers) {stop : Stop} {handle : Handle} (hphase : w.phase = .served stop handle) :
    ∃ r name, d.session.shared.readers[stop.file]? = some r ∧ listed[stop.file]? = some name ∧
      r.path = FileName.text name ∧ r.source.Serves (data name) ∧
      (d.session.shared.offset handle).toNat =
        stop.position.toNat - stop.position.toNat % step.toNat ∧
      (d.session.shared.offset handle).toNat + (d.session.shared.bytes handle).size <
        UInt64.size := by
  obtain ⟨keys, hfaithful⟩ := h.faithful
  obtain ⟨k, hasked, hk⟩ := h.holds w hw stop handle (by rw [hphase]; rfl) (by rw [hphase]; rfl)
  obtain ⟨p, hp, rfl⟩ := Option.map_eq_some_iff.1 hk
  obtain ⟨file, hfile, rfl⟩ := accessesTo_get?.1 hp
  obtain ⟨name, hname, hof⟩ := opened_at hopened hfile
  have hgranted : (file.access, stop.file) ∈ d.session.accesses := by
    rw [h.granted]
    exact List.mem_of_getElem? hp
  obtain ⟨r, hr, hpath, -⟩ := (hfaithful.accesses _ hgranted).opens
  have hshows := hfaithful.traffic.shows r (List.mem_of_getElem? hr)
  have hhas : handle ∈ w.phase.handle?.toList := by
    rw [hphase]
    exact List.mem_singleton_self handle
  have hmem : handle ∈ d.session.shared.handles :=
    h.handles.symm.subset (List.mem_flatMap.2 ⟨w, hw, hhas⟩)
  obtain ⟨chunk, hchunk, hoffset, hview⟩ := hfaithful.reads hmem hasked
  have hstart : (d.session.shared.offset handle).toNat =
      stop.position.toNat - stop.position.toNat % step.toNat := by
    rw [Shared.offset, hchunk]
    exact hoffset
  have hless := (d.session.shared.offset handle).toNat_lt
  have hsize : (d.session.shared.bytes handle).size ≤
      (data name).size - (d.session.shared.offset handle).toNat := by
    rw [Shared.bytes, hview, hstart]
    simp only [Option.getD_some, Reader.chunkId, images, hof.path, hof.bytes, Image.slice,
      Image.start, ByteArray.size_extract]
    omega
  have hbound := hof.bound
  have hword : UInt64.size = 2 ^ 63 + 2 ^ 63 := rfl
  have htext : r.path = FileName.text name := hpath.trans hof.path
  have hserves : r.source.Serves (data name) := by
    have hpathServes := hshows.serves
    simp only [images, htext, hof.bytes] at hpathServes
    exact hpathServes
  exact ⟨r, name, hr, hname, htext, hserves, hstart, by omega⟩

theorem Discernible.of_utf8 (texts : List String) (data : ByteName → ByteArray) :
    Discernible (texts.map ByteName.ofText) data :=
  .of_injOn ByteName.injOn_text

/-- A scan of files that their path texts tell apart reads everything just as often as asked,
however its workers take turns. Whoever has met no error has asked, in each pass, for a position in
each chunk of each file; what it is given is compared with the file's bytes at that place; and if
all come to their ends each chunk and each byte was counted once for each worker and pass, and no
block is left out of the pool. The program itself lets one worker read after the other. -/
theorem scan_reads_everything (hf : Finds openSource data) (hd : Discernible o.files data)
    (hthreads : o.threads.toNat < 2 ^ 63) (hstart : Crew.start o hash ties openSource = .ok c)
    (h : c.Reaches (images o.files data o.chunkSize) d) :
    let lengths := o.files.map fun name ↦ (data name).size
    let step := o.chunkSize.toNat
    (d.workers.length = o.threads.toNat ∧
      ∀ worker w, d.workers[worker]? = some w →
        w.requested <+: route lengths step o.passes.toNat worker ∧
        (w.Succeeded → w.requested = route lengths step o.passes.toNat worker)) ∧
    (∀ length ∈ lengths, ∀ worker < o.threads.toNat,
      (((visits length step worker).map fun p ↦ p - p % step).Nodup ∧
        ∀ n, n ∈ (visits length step worker).map (fun p ↦ p - p % step) ↔
          step ∣ n ∧ n < length) ∧
      ∀ i < chunkCount length step, position length step worker i < length ∧
        position? (.ofNat length) o.chunkSize (.ofNat worker) (.ofNat i) =
          some (.ofNat (position length step worker i))) ∧
    (∀ w ∈ d.workers, ∀ stop handle, w.phase = .served stop handle →
      ∃ r name, d.session.shared.readers[stop.file]? = some r ∧
        o.files[stop.file]? = some name ∧ r.path = FileName.text name ∧
        let start := d.session.shared.offset handle
        start.toNat = stop.position.toNat - stop.position.toNat % step ∧
        start.toNat + (d.session.shared.bytes handle).size < UInt64.size ∧
        ∀ bytes : ByteArray, start.toNat + bytes.size < UInt64.size →
          Compares r.source (data name) start bytes) ∧
    ((∀ w ∈ d.workers, w.Succeeded) → ∀ elapsedMs,
      let report := d.report o elapsedMs
      report.chunksRead =
          o.threads.toNat * o.passes.toNat * (lengths.map (chunkCount · step)).sum ∧
        report.bytesRead = o.threads.toNat * o.passes.toNat * lengths.sum ∧
        report.poolAcquired = report.poolReleased ∧ report.poolOutstanding = 0 ∧
        report.leak? = none) ∧
    ∀ elapsedMs report, run o openSource elapsedMs = .ok report →
      report.chunksRead =
          o.threads.toNat * o.passes.toNat * (lengths.map (chunkCount · step)).sum ∧
        report.bytesRead = o.threads.toNat * o.passes.toNat * lengths.sum ∧
        report.poolAcquired = report.poolReleased ∧ report.poolOutstanding = 0 ∧
        report.leak? = none := by
  intro lengths step
  obtain ⟨opened, hopened, hsound⟩ := Crew.sound_of_start hf hd hstart
  have hlengths : opened.map File.length = lengths := lengths_of_opened hopened
  obtain ⟨hsound, -⟩ := Crew.sound_of_reaches hsound h
  refine ⟨⟨?_, ?_⟩, ?_, ?_, ?_, ?_⟩
  · have hcount := congrArg List.length hsound.routes
    simpa using hcount
  · intro worker w hw
    obtain ⟨stops, hstops, hprefix⟩ := hsound.requested_prefix hw
    rw [List.getElem?_map] at hstops
    obtain ⟨k, hk, rfl⟩ := Option.map_eq_some_iff.1 hstops
    obtain ⟨_, rfl⟩ := List.getElem?_eq_some_iff.1 hk
    rwa [List.getElem_range, hlengths] at hprefix
  · intro length hm worker hworker
    obtain ⟨hbound, hpower⟩ := bounds_of_opened hopened hm
    exact visits_of_bounds hbound (Nat.lt_trans hworker hthreads) hpower
  · intro w hw stop handle hphase
    obtain ⟨r, name, hr, hname, htext, hserves, hbegins, hword⟩ :=
      hsound.served hopened hw hphase
    refine ⟨r, name, hr, hname, htext, hbegins, hword, ?_⟩
    intro bytes hbytes
    exact compares_of_serves hserves hbytes
  · intro hdone elapsedMs
    exact Crew.report_of_succeeded hf hd hstart h hdone elapsedMs
  · intro elapsedMs report hrun
    obtain ⟨c', d', hstart', h', hdone, rfl⟩ := exists_crew_of_run hf hd hrun
    exact Crew.report_of_succeeded hf hd hstart' h' hdone elapsedMs

instance (w : Worker) : Decidable w.Succeeded :=
  match w with
  | ⟨_, [], .ready⟩ => isTrue ⟨rfl, rfl⟩
  | ⟨_, _ :: _, _⟩ => isFalse fun h ↦ List.cons_ne_nil _ _ h.2
  | ⟨_, _, .waiting ..⟩ | ⟨_, _, .served ..⟩ | ⟨_, _, .agreed ..⟩ | ⟨_, _, .counted ..⟩
  | ⟨_, _, .leaving ..⟩ | ⟨_, _, .refusing ..⟩ | ⟨_, _, .failed ..⟩ => isFalse fun h ↦ nomatch h.1

def Crew.take (c : Crew) (turns : List Nat) : Crew :=
  turns.foldl (fun c i ↦ (c.step i).getD c) c

theorem Crew.reaches_take (c : Crew) (turns : List Nat) : c.Reaches files (c.take turns) := by
  have hall {d : Crew} (h : c.Reaches files d) : c.Reaches files (d.take turns) := by
    induction turns generalizing d with
    | nil => exact h
    | cons i turns ih =>
      refine ih ?_
      show c.Reaches files ((d.step i).getD d)
      cases hs : d.step i with
      | none => exact h
      | some e => exact .step i h hs
  exact hall .refl

def onDisk (data : Name → ByteArray) (name : Name) : Except Error ByteSource :=
  .ok (.ofFile (FileName.text name) (data name))

theorem finds_onDisk (hbound : ∀ name, (data name).size < 2 ^ 63) :
    Finds (onDisk data) data := by
  intro name source h
  cases h
  refine ⟨rfl, ByteSource.serves_ofFile (FileName.text name) (data name), ?_, hbound name⟩
  intro length hlength
  cases hlength
  rfl

def twice : Options String where
  files := ["a", "b", "a"]
  chunkSize := 8
  threads := 2
  passes := 1
  cacheSizeMb := 512
  reservedMb := 32
  capacityBytes := some 4096
  disable := false
  roundUp := false
  maxReferenceAttempts := 1000
  json := false

def elevenAndNone (name : String) : ByteArray :=
  if name = "a" then Reader.zeros 11 else ByteArray.empty

theorem scan_reads_everything_twice :
    ∃ c d, Finds (onDisk elevenAndNone) elevenAndNone ∧ Discernible twice.files elevenAndNone ∧
      twice.threads.toNat < 2 ^ 63 ∧
      Crew.start twice ChunkId.hash .asListed (onDisk elevenAndNone) = .ok c ∧
      c.Reaches (images twice.files elevenAndNone twice.chunkSize) d ∧
      (∀ w ∈ d.workers, w.Succeeded) ∧
      (run twice (onDisk elevenAndNone) 0).toOption.isSome ∧
      (d.report twice 0).chunksRead = 8 ∧ (d.report twice 0).bytesRead = 44 ∧
      (d.report twice 0).leak? = none := by
  have hfinds : Finds (onDisk elevenAndNone) elevenAndNone := by
    apply finds_onDisk
    intro name
    unfold elevenAndNone
    split <;> decide
  have hclear : Discernible twice.files elevenAndNone := .of_injOn Function.injective_id.injOn
  obtain ⟨turns, hend⟩ : ∃ turns,
      (Crew.start twice ChunkId.hash .asListed (onDisk elevenAndNone)).toOption.any fun c ↦
        (c.take turns).workers.all fun w ↦ decide w.Succeeded :=
    ⟨(List.replicate 60 [0, 1]).flatten, by decide +kernel⟩
  have hrun : (run twice (onDisk elevenAndNone) 0).toOption.isSome := by decide +kernel
  cases hstart : Crew.start twice ChunkId.hash .asListed (onDisk elevenAndNone) with
  | error f =>
    rw [hstart] at hend
    cases hend
  | ok c =>
    rw [hstart] at hend
    have hdone : ∀ w ∈ (c.take turns).workers, w.Succeeded := by
      intro w hw
      exact of_decide_eq_true (List.all_eq_true.1 hend w hw)
    have hreaches : c.Reaches (images twice.files elevenAndNone twice.chunkSize) (c.take turns) :=
      c.reaches_take turns
    obtain ⟨-, -, -, htotals, -⟩ :=
      scan_reads_everything hfinds hclear (by decide) hstart hreaches
    obtain ⟨hchunks, hbytes, -, -, hleak⟩ := htotals hdone 0
    exact ⟨c, c.take turns, hfinds, hclear, by decide, rfl, hreaches, hdone, hrun,
      hchunks.trans (by decide +kernel), hbytes.trans (by decide +kernel), hleak⟩

/-- Two names that are no UTF-8 and differ only where they are not. -/
def lookalikes : Options ByteName where
  files := [⟨[0x61, 0xFF]⟩, ⟨[0x61, 0xFE]⟩]
  chunkSize := 16
  threads := 1
  passes := 1
  cacheSizeMb := 512
  reservedMb := 32
  capacityBytes := none
  disable := false
  roundUp := false
  maxReferenceAttempts := 1000
  json := false

def greeting (name : ByteName) : ByteArray :=
  if name = ⟨[0x61, 0xFF]⟩ then "hello".toUTF8 else "helloworld".toUTF8

/-- The chunk of the first file is served for the second, whose first bytes are the same. The scan
has met no error, and has not read the other bytes of the second file. -/
theorem scan_misses_bytes :
    Finds (onDisk greeting) greeting ∧
      lookalikes.threads.toNat * lookalikes.passes.toNat *
        (lookalikes.files.map fun name ↦ (greeting name).size).sum = 15 ∧
      (run lookalikes (onDisk greeting) 0).toOption.map Report.bytesRead = some 10 := by
  refine ⟨finds_onDisk ?_, by decide +kernel, by decide +kernel⟩
  intro name
  unfold greeting
  split <;> decide +kernel

end ReadCache.Scan
