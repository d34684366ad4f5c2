import ReadCache.Cache
import ReadCache.FileName
import ReadCache.Scan.CommandLine
import ReadCache.Scan.Report

namespace ReadCache.Scan

structure File where
  access : Access
  source : ByteSource
  length : Nat

structure Tally where
  chunks : Nat := 0
  bytes : Nat := 0
  deriving DecidableEq, Repr

abbrev Workspace := Engine × Tally

abbrev Work := ExceptT Failure (StateM Workspace)

def chunkCount (length step : Nat) : Nat := (length + step - 1) / step

/-- The `i`-th position at which a worker reads a file: in the chunk that many after the worker's
first, as far into it as the worker's number says, but not past the last byte. -/
def position (length step worker i : Nat) : Nat :=
  min ((i + worker) % chunkCount length step * step + worker % step) (length - 1)

def verify (source : ByteSource) (start : UInt64) (bytes : ByteArray) : Except Failure Unit :=
  match Reader.fill source start bytes.size with
  | .full expected => if expected.data = bytes.data then .ok () else .error (.differs start source.path)
  | .short _ => .error (.differs start source.path)
  | .broken _ e => .error (.reading e)

def ofFailure : ReadCache.Failure → Failure
  | .error e => .reading e
  | .panic | .stuck => .workerPanicked

def readAt (file : File) (position : UInt64) : Work Unit := fun w =>
  match file.access.rebuffer file.access.reader.physicalRead position w with
  | (.error failure, w) => (.error (ofFailure failure), w)
  | (.ok chunk, (e, tally)) =>
    let given := (e.memory.view? chunk).getD ByteArray.empty
    let start := ((e.memory.chunk? chunk).map Chunk.offset).getD 0
    let e := e.onMemory (·.unreference chunk)
    match verify file.source start given with
    | .error failure => (.error failure, (e, tally))
    | .ok () =>
      (.ok (), (e, { chunks := tally.chunks + 1, bytes := tally.bytes + given.size }))

def readFile (file : File) (step worker count : Nat) : (left : Nat) → Work Unit
  | 0 => pure ()
  | left + 1 => do
    readAt file (.ofNat (position file.length step worker (count - (left + 1))))
    readFile file step worker count left

def readFiles (files : List File) (step worker : Nat) : Work Unit :=
  files.forM fun file =>
    let count := chunkCount file.length step
    readFile file step worker count count

def readPasses (files : List File) (step worker : Nat) : (passes : Nat) → Work Unit
  | 0 => pure ()
  | passes + 1 => do
    readFiles files step worker
    readPasses files step worker passes

def readAll (files : List File) (step passes : Nat) : (worker workers : Nat) → Work Unit
  | _, 0 => pure ()
  | worker, workers + 1 => do
    readPasses files step worker passes
    readAll files step passes (worker + 1) workers

variable {Name : Type} [FileName Name]

def openFile (cache : Cache) (chunkSize : UInt64) (name : Name)
    (source? : Except Error ByteSource) : Except Failure File := do
  let source ← source?.mapError (.opening (FileName.text name))
  let reader ← (Reader.open? source chunkSize).mapError (.creatingReader (FileName.text name))
  let access ← (cache.wrap reader).mapError .reading
  return { access, source, length := reader.length.toNat }

/-- Workers read all chunks of all files through one cache, one worker after the other, and compare
them with the files; then everything is closed and counted. -/
def run (o : Options Name) (openSource : Name → Except Error ByteSource) (elapsedMs : Nat) :
    Except Failure Report := do
  if o.threads = 0 then throw .noThreads
  let cache ← (Cache.build o.config []).mapError .configuration
  let some store := Store.create? cache.settings ChunkId.hash | throw .workerPanicked
  let files ← o.files.mapM fun name => openFile cache o.chunkSize name (openSource name)
  let start : Workspace := ({ store, memory := {} }, {})
  let (result, e, tally) :=
    readAll files o.chunkSize.toNat o.passes.toNat 0 o.threads.toNat start
  result
  let report := e.store.report
  let e := e.invalidateAll.2
  let pool := e.memory.pool
  return {
    files := o.files.length
    threads := o.threads.toNat
    passes := o.passes.toNat
    cacheEnabled := cache.isEnabled
    chunksRead := tally.chunks
    bytesRead := tally.bytes
    elapsedMs
    cache := report
    poolAcquired := pool.acquired
    poolReleased := pool.released
    poolOutstanding := pool.outstanding }

end ReadCache.Scan
