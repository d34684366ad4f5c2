import ReadCache.Scenario.World

namespace ReadCache.Scenario

open Nat (pow)

/-- What happens before the chunk at a position of a reader is read. A failure stands for the
read. -/
abbrev Before := (reader : Nat) → (position : UInt64) → World → Option Failure × World

def countRead (reader : Nat) (position : UInt64) (w : World) : World :=
  w.modifyProbe reader fun p =>
    { p with reads := p.reads.insert position ((p.reads.get? position).getD 0 + 1) }

def readCounted (before : Before) (reader : Nat) : PhysicalRead World := fun position b w =>
  match before reader position w with
  | (some failure, w) => ((.error failure, b), w)
  | (none, w) =>
    match w.probe? reader with
    | some probe => (probe.reader.readChunk position b, w)
    | none => ((.error .panic, b), w)

def physicalRead (before : Before) (reader : Nat) : PhysicalRead World := fun position b w =>
  readCounted before reader position b (countRead reader position w)

def getOrLoad (before : Before) (reader : Nat) (r : Reader) (position : UInt64) :
    Action World ChunkRef := fun w =>
  Engine.getOrLoadWith (r.chunkId position)
    (Engine.loadBlock r (physicalRead before reader) position w.1.store.settings.roundUp) w

def rebuffer (before : Before) (reader : Nat) (a : Access) (position : UInt64) :
    Action World ChunkRef :=
  a.rebuffer (physicalRead before reader) position

def readOnce (before : Before) (reader : Nat) (a : Access) (position : UInt64) (w : World) :
    Reply × World :=
  match rebuffer before reader a position w with
  | (.error failure, w) => (.failed failure, w)
  | (.ok chunk, w) =>
    let reply := match w.handleView? chunk with
      | .ok view => .handle view
      | .error failure => .failed failure
    (reply, w.release chunk)

def switchCache (value : Bool) (w : World) : World :=
  (w.onEngine Engine.restart).onBench fun b =>
    { b with cache := b.cache.map fun c => { c with enabled := value } }

def InnerStep.run (before : Before) : InnerStep → World → Reply × World
  | .read name position, w =>
    match w.access? name with
    | none => (.missing .access, w)
    | some (reader, a) => readOnce before reader a position w
  | .invalidate name position, w =>
    match w.access? name with
    | none => (.missing .access, w)
    | some (_, a) =>
      (.nothing,
        if a.isCached then w.onEngine fun e => (e.invalidate (a.chunkId position)).2 else w)
  | .invalidateFile path, w =>
    if w.2.holding then
      let (n, e) := w.1.invalidateFile path
      (.count n, (e, w.2))
    else (.missing .cache, w)
  | .invalidateAll, w =>
    if w.2.holding then
      let (n, e) := w.1.invalidateAll
      (if w.2.cache.isSome then .nothing else .count n, (e, w.2))
    else (.missing .cache, w)
  | .setEnabled value, w =>
    if w.cache?.isNone then (.missing .cache, w)
    else
      let w := switchCache value w
      (.flag (w.cache?.any Cache.isEnabled), w)
  | .close name, w =>
    match w.access? name with
    | none => (.missing .access, w)
    | some (reader, _) => (.done, w.closeReader reader)
  | .resetMetrics, w =>
    if w.holdsStore then (.nothing, w.onEngine Engine.resetCounters) else (.missing .store, w)
  | .evict, w =>
    if w.holdsStore then (.nothing, w.onEngine Engine.evictIfNeeded) else (.missing .store, w)

def Reply.fatal? : Reply → Option Failure
  | failed (.error _) => none
  | failed failure => some failure
  | _ => none

/-- Runs actions up to the first that makes the read fail. Replies to steps are dropped, but a panic
in a step is one in the read. -/
def runActions (take : InnerStep → World → Reply × World) (path : String) (position : UInt64) :
    List HookAction → World → Option Failure × World
  | [], w => (none, w)
  | .corrupt reason :: _, w => (some (.error (.corruption path position reason)), w)
  | .ioError text :: _, w => (some (.error (.io text)), w)
  | .panic :: _, w => (some .panic, w)
  | .step s :: rest, w =>
    let (reply, w) := take s w
    match reply.fatal? with
    | none => runActions take path position rest w
    | some failure => (some failure, w)

def countSeen (reader index : Nat) (w : World) : World :=
  w.modifyProbe reader fun p =>
    { p with hooks := p.hooks.modify index fun h => { h with seen := h.seen + 1 } }

def runHook (take : InnerStep → World → Reply × World) (reader : Nat) (position : UInt64)
    (index : Nat) (w : World) : Option Failure × World :=
  match w.probe? reader with
  | none => (none, w)
  | some probe =>
    match probe.hooks[index]? with
    | none => (none, w)
    | some hook =>
      if !hook.applies position then (none, w)
      else
        let w := countSeen reader index w
        if hook.fires then runActions take probe.reader.path position hook.actions w
        else (none, w)

def runHooks (take : InnerStep → World → Reply × World) (reader : Nat) (position : UInt64) :
    List Nat → World → Option Failure × World
  | [], w => (none, w)
  | index :: rest, w =>
    match runHook take reader position index w with
    | (none, w) => runHooks take reader position rest w
    | (failure, w) => (failure, w)

def Ending.failure? (path : String) (position : UInt64) : Ending → Option Failure
  | normal => none
  | corrupt => some (.error (.corruption path position "checksum mismatch"))
  | ioError => some (.error (.io "device not ready"))
  | panic => some .panic
  | allocation => none

def askAll (k : ChunkId) : (callers : Nat) → World → List Lookup × World
  | 0, w => ([], w)
  | callers + 1, w =>
    let (lookup, e) := w.1.request k
    let (lookups, w) := askAll k callers (e, w.2)
    (lookup :: lookups, w)

def invalidateMarked (marked : Option ChunkId) (w : World) : Option Bool × World :=
  match marked with
  | some k =>
    let (removed, e) := w.1.invalidate k
    (some removed, (e, w.2))
  | none => (none, w)

def passGate : Before := fun reader position w =>
  match w.2.gate.filter (·.reader = reader) with
  | none => (none, w)
  | some g =>
    let (lookups, w) := askAll g.wanted g.waiters (w.setGate none)
    let (removed, w) := invalidateMarked g.marked w
    let path := ((w.probe? reader).map fun p => p.reader.path).getD ""
    (g.ending.failure? path position,
      w.onBench fun b => { b with passage := some { lookups, removed } })

/-- Passes the gate and runs the hooks of a reader. Their steps may read in turn, and so on to a
depth of `depth`. -/
def hooksBefore : (depth : Nat) → Before
  | 0, _, _, w => (some .stuck, w)
  | depth + 1, reader, position, w =>
    match passGate reader position w with
    | (none, w) =>
      let count := ((w.probe? reader).map fun p => p.hooks.length).getD 0
      runHooks (InnerStep.run (hooksBefore depth)) reader position (List.range count) w
    | (failure, w) => (failure, w)

def nestingDepth : Nat := pow 2 60

def before : Before := hooksBefore nestingDepth

end ReadCache.Scenario
