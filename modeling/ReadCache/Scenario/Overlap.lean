import ReadCache.Scenario.Physical

namespace ReadCache.Scenario

def readHeld (ending : Ending) (reader : Nat) : PhysicalRead World := fun position b w =>
  let path := ((w.probe? reader).map fun p => p.reader.path).getD ""
  match ending.failure? path position with
  | some failure => ((.error failure, b), w)
  | none => readCounted before reader position b w

def takeReference (chunk : ChunkRef) : Action World Bool := Engine.reference chunk

def chunkResult (w : World) (result : Except Failure ChunkRef) : Except Failure ChunkView :=
  result.map w.chunkView

/-- A load that has its slot and its block and is held in its read. -/
structure HeldLoad where
  key : ChunkId
  ticket : Ticket
  reader : Nat
  block : Block

abbrev Started := Sum (Except Failure ChunkRef) HeldLoad

def startHeld (reader : Nat) (r : Reader) (position : UInt64) (w : World) : Started × World :=
  let k := r.chunkId position
  match w.1.request k with
  | (.hit chunk, e) => (.inl (.ok chunk), (e, w.2))
  | (.wait ticket, e) => (.inl (e.receive ticket), (e, w.2))
  | (.load ticket, e) =>
    match Engine.acquireFor r position e.store.settings.roundUp (e, w.2) with
    | (.ok b, w) => (.inr ⟨k, ticket, reader, b⟩, countRead reader position w)
    | (.error failure, (e, bench)) =>
      let (result, e) := e.finish k ticket (.error failure)
      (.inl result, (e, bench))

def finishHeld (ending : Ending) (h : HeldLoad) (w : World) : Except Failure ChunkRef × World :=
  let (loaded, e, bench) := Engine.readInto (readHeld ending h.reader) h.key.position h.block w
  let (result, e) := e.finish h.key h.ticket loaded
  (result, (e, bench))

def finishStarted (ending : Ending) : Started → World → Except Failure ChunkRef × World
  | .inl answer, w => (answer, w)
  | .inr held, w => finishHeld ending held w

def answerOf (w : World) : Lookup → Except Failure ChunkRef
  | .hit chunk => .ok chunk
  | .wait ticket | .load ticket => w.1.receive ticket

def askEach (ask : Action World ChunkRef) :
    (callers : Nat) → World → List (Except Failure ChunkRef) × World
  | 0, w => ([], w)
  | callers + 1, w =>
    let (answer, w) := ask w
    let (answers, w) := askEach ask callers w
    (answer :: answers, w)

def takeHandle (reader : Nat) (a : Access) (position : UInt64) (attempts : UInt32)
    (answer : Except Failure ChunkRef) : Action World ChunkRef := do
  let chunk ← (answer : Except Failure ChunkRef)
  if ← takeReference chunk then return chunk
  let w ← get
  let load := Engine.loadBlock a.reader (physicalRead before reader) (a.aligned position)
    w.1.store.settings.roundUp
  Access.attempt (a.chunkId position) load attempts (attempts.toNat - 1)

def takeAll (take : Except Failure ChunkRef → Action World ChunkRef) :
    List (Except Failure ChunkRef) → World → List (Except Failure ChunkRef) × World
  | [], w => ([], w)
  | answer :: rest, w =>
    let (result, w) := take answer w
    let (results, w) := takeAll take rest w
    (result :: results, w)

def raceView (w : World) (asHandles : Bool) (first : Except Failure ChunkRef)
    (chunk : ChunkRef) : Except Failure RaceView := do
  let view ← if asHandles then Sum.inl <$> w.handleView? chunk else pure (.inr (w.chunkView chunk))
  return ⟨view, match first with
    | .ok c => c = chunk
    | .error _ => false⟩

def askFor (reader : Nat) (r : Reader) (position : UInt64) : Option Access → Action World ChunkRef
  | some a => rebuffer before reader a position
  | none => getOrLoad before reader r position

def takeAnswer (reader : Nat) (position : UInt64) (access : Option Access)
    (answer : Except Failure ChunkRef) : Action World ChunkRef :=
  match access with
  | some ⟨r, .cached attempts, watchers⟩ =>
    takeHandle reader ⟨r, .cached attempts, watchers⟩ position attempts answer
  | _ => (answer : Except Failure ChunkRef)

/-- One caller asks for a chunk and is held in the next read of the gated reader. `waiters` others
come to wait for what it loads, the marked chunk is invalidated, and the read goes on. Where nobody
is held the others ask when the first one is done, and past the table nobody waits. -/
def runCallers (gated reader : Nat) (r : Reader) (position : UInt64) (access : Option Access)
    (waiters : Nat) (ending : Ending) (marked : Option ChunkId) (w : World) :
    List (Except Failure ChunkRef) × Option Bool × World :=
  let wanted := r.chunkId ((access.map (·.aligned position)).getD position)
  let comers := if access.all Access.isCached then waiters else 0
  let ask := askFor reader r position access
  let (first, w) := ask (w.setGate (some ⟨gated, wanted, comers, marked, ending⟩))
  match w.2.passage with
  | some { lookups, removed } =>
    let answers := lookups.map (answerOf w)
    let (waiting, w) := takeAll (takeAnswer reader position access) answers w
    let (others, w) := askEach ask (waiters - comers) w
    (first :: waiting ++ others, removed, w)
  | none =>
    let (others, w) := askEach ask waiters (w.setGate none)
    let (removed, w) := invalidateMarked marked w
    (first :: others, removed, w)

def runRace (gated reader : Nat) (r : Reader) (position : UInt64) (access : Option Access)
    (waiters : Nat) (ending : Ending) (marked : Option ChunkId) (w : World) : Reply × World :=
  let (results, removed, w) := runCallers gated reader r position access waiters ending marked w
  let first := results.headD (.error .stuck)
  let views := results.map fun result => result.bind (raceView w access.isSome first)
  let w := if access.isSome then
      results.foldl (fun w result => match result with
        | .ok chunk => w.release chunk
        | .error _ => w) w
    else w
  (.raced views removed, w)

/-- Two loads of one chunk overlap: the first is held, its slot invalidated, the second started, and
then the first is finished before the second. -/
def runTakeover (reader : Nat) (r : Reader) (position : UInt64) (first second : Ending)
    (w : World) : Reply × World :=
  let (one, w) := startHeld reader r position w
  let (removed, e) := w.1.invalidate (r.chunkId position)
  let (two, w) := startHeld reader r position (e, w.2)
  let before := w.snapshot
  let (one, w) := finishStarted first one w
  let oneView := chunkResult w one
  let between := w.snapshot
  let (two, w) := finishStarted second two w
  (.takenOver removed before oneView between (chunkResult w two), w)

end ReadCache.Scenario
