import ReadCache.Scenario.Overlap

namespace ReadCache.Scenario

def Ending.loaderFailure (k : ChunkId) : Ending → Failure
  | ioError => .error (.io "loader failed")
  | allocation => .error (.bufferAllocation 1 "loader")
  | panic => .panic
  | normal | corrupt => .error (.corruption k.path k.position "loader")

def chunkReply (w : World) : Except Failure ChunkRef → Reply
  | .ok chunk => .chunk (w.chunkView chunk)
  | .error failure => .failed failure

def viewReply (w : World) (chunk : ChunkRef) (reply : HandleView → Reply) : Reply :=
  match w.handleView? chunk with
  | .ok view => reply view
  | .error failure => .failed failure

def withAccess (name : String) (w : World) (f : Nat → Access → Reply × World) : Reply × World :=
  match w.access? name with
  | some (reader, a) => f reader a
  | none => (.missing .access, w)

def withHandle (name : String) (w : World) (f : ChunkRef → Reply × World) : Reply × World :=
  match w.handle? name with
  | some chunk => f chunk
  | none => (.missing .handle, w)

def withKept (name : String) (w : World) (f : ChunkRef → Reply × World) : Reply × World :=
  match w.kept? name with
  | some chunk => f chunk
  | none => (.missing .buffer, w)

def withReader (reader : Nat) (w : World) (f : Reader → Reply × World) : Reply × World :=
  match w.probe? reader with
  | some probe => f probe.reader
  | none => (.missing .reader, w)

def withStore (w : World) (f : Unit → Reply × World) : Reply × World :=
  if w.holdsStore then f () else (.missing .store, w)

/-- The log of what watches the access, and its description where nothing hides it. -/
def wrappedReply (a : Access) (mode : AccessMode) (align : List UInt64) : Reply :=
  .wrapped a.watchers
    (if a.watchers.isEmpty then some a.describe else none)
    (if mode = .ofCache then none else some a.text)
    (match mode with
      | .cached _ => some (align.map a.aligned)
      | _ => none)

def wrapReader (reader : Nat) (name : String) (mode : AccessMode) (align : List UInt64) (r : Reader)
    (w : World) : Reply × World :=
  let bind : Except Error Access → Reply × World
    | .ok a => (wrappedReply a mode align, w.bindAccess name reader a)
    | .error e => (.failed (.error e), w)
  match mode with
  | .ofCache =>
    match w.cache? with
    | some cache => bind (cache.wrap r)
    | none => (.missing .cache, w)
  | .cached attempts =>
    if w.holdsStore then bind (Access.cached? r attempts) else (.missing .store, w)
  | .direct => bind (Access.direct? r)

def sizesReply (w : World) : Reply :=
  let s := w.1.store
  if !w.2.holding then .missing .cache
  else match w.2.cache with
    | none => .storeSizes s.capacity s.size s.weightedSize
    | some cache =>
      .cacheSizes cache.capacity s.size s.weightedSize cache.isEnabled
        (cache.describe s.weightedSize)

def Step.run : Step → World → Reply × World
  | .inner s, w => s.run before w
  | .wrap reader name mode align, w =>
    withReader reader w fun r => wrapReader reader name mode align r w
  | .hold access position name, w =>
    withAccess access w fun reader a =>
      match rebuffer before reader a position w with
      | (.error failure, w) => (.failed failure, w)
      | (.ok chunk, w) =>
        (viewReply w chunk fun v => .held v (w.handlesOn chunk), w.bindHandle name chunk)
  | .view handle, w =>
    withHandle handle w fun chunk =>
      let descriptions := match w.1.memory.chunk? chunk with
        | some c => [c.describeHandle, c.describe]
        | none => []
      (viewReply w chunk fun v => .viewed v descriptions, w)
  | .share handle name, w =>
    withHandle handle w fun chunk =>
      let w := w.onMemory (·.share chunk)
      (viewReply w chunk .handle, w.bindHandle name chunk)
  | .release handle, w =>
    withHandle handle w fun chunk =>
      (.nothing,
        (w.onBench fun b => { b with handles := b.handles.erase handle }).release chunk)
  | .keep handle name, w =>
    withHandle handle w fun chunk => (.chunk (w.chunkView chunk), w.keep name chunk)
  | .buffer kept, w => withKept kept w fun chunk => (.chunk (w.chunkView chunk), w)
  | .dropBuffer kept, w =>
    withKept kept w fun _ =>
      (.nothing, w.onBench fun b => { b with kept := b.kept.erase kept })
  | .reference kept name, w =>
    withKept kept w fun chunk =>
      match takeReference chunk w with
      | (.error failure, w) => (.failed failure, w)
      | (.ok false, w) => (.unreferenced (w.chunkView chunk), w)
      | (.ok true, w) => (viewReply w chunk .handle, w.bindHandle name chunk)
  | .info access, w =>
    withAccess access w fun _ a =>
      (.info a.reader.length a.reader.path a.reader.crcCheckChance, w)
  | .closeReader access, w => withAccess access w fun _ _ => (.nothing, w)
  | .closeFactory access, w =>
    withAccess access w fun reader _ => (.done, w.closeReader reader)
  | .dropAccess access, w =>
    match w.access? access with
    | none => (.flag false, w)
    | some _ =>
      (.flag true,
        (w.onBench fun b => { b with accesses := b.accesses.erase access }).dropUnheldStore)
  | .setCapacity value, w =>
    match w.cache? with
    | none => (.missing .cache, w)
    | some cache =>
      match cache.setCapacity value with
      | .ok () => (.nothing, w)
      | .error e => (.fixedCapacity e cache.capacity, w)
  | .sizes, w => (sizesReply w, w)
  | .metrics, w =>
    if w.2.holding then
      let report := w.1.store.report
      (.metrics report.hitRatio report.text, w)
    else (.missing .cache, w)
  | .reads reader, w =>
    match w.probe? reader with
    | none => (.missing .reader, w)
    | some probe => (.reads (probe.reads.mergeSort fun a b => a.1 ≤ b.1), w)
  | .dropCache, w =>
    if w.2.holding then
      (.flag true, (w.onBench fun b => { b with holding := false }).dropUnheldStore)
    else (.flag false, w)
  | .get reader position name, w =>
    withStore w fun _ => withReader reader w fun r =>
      let (result, w) := getOrLoad before reader r position w
      let reply := chunkReply w result
      match result, name with
      | .ok chunk, some name => (reply, w.keep name chunk)
      | _, _ => (reply, w)
  | .loadWith reader position ending, w =>
    withStore w fun _ => withReader reader w fun r =>
      let k := r.chunkId position
      let called := (w.1.store.slots.get? k).isNone
      let loader : Action World Block := throw (ending.loaderFailure k)
      let (result, w) := Engine.getOrLoadWith k loader w
      (.loaded called (chunkResult w result), w)
  | .remove reader position, w =>
    withStore w fun _ => withReader reader w fun r =>
      let (removed, e) := w.1.invalidate (r.chunkId position)
      (.flag removed, (e, w.2))
  | .removeMatching filter, w =>
    withStore w fun _ =>
      let (n, e) := w.1.invalidateMatching filter.accepts
      (.count n, (e, w.2))
  | .race reader position waiters ending invalidated access, w =>
    withReader reader w fun r =>
      let marked := if invalidated && w.holdsStore then some (r.chunkId position) else none
      match access with
      | none =>
        if w.holdsStore then runRace reader reader r position none waiters ending marked w
        else (.missing .race, w)
      | some name =>
        match w.access? name with
        | some (asker, a) =>
          runRace reader asker a.reader position (some a) waiters ending marked w
        | none => (.missing .race, w)
  | .takeover reader position first second, w =>
    match w.probe? reader with
    | some probe =>
      if w.holdsStore then runTakeover reader probe.reader position first second w
      else (.missing .race, w)
    | none => (.missing .race, w)

structure Outcome where
  steps : List (Reply × Snapshot)
  closing : List (List Nat)

def runFrom : List Step → World → List (Reply × Snapshot) × World
  | [], w => ([], w)
  | step :: rest, w =>
    let (reply, w) := step.run w
    let shown := (reply, w.snapshot)
    let (replies, w) := runFrom rest w
    (shown :: replies, w)

def run (setup : Setup) (script : List Step) : Except Failure Outcome := do
  let w ← World.build setup
  let (steps, w) := runFrom script w
  return { steps, closing := w.closing }

end ReadCache.Scenario
