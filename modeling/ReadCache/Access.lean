import ReadCache.Config.Basic
import ReadCache.Reader
import ReadCache.Store.Engine

namespace ReadCache

/-- How a chunk is read into a block. A read may act on all of the state, and it hands the block
back whatever becomes of it. -/
abbrev PhysicalRead (σ : Type) := UInt64 → Block → σ → (Except Failure Unit × Block) × σ

def Reader.physicalRead {σ : Type} (r : Reader) : PhysicalRead σ :=
  fun position b s => (r.readChunk position b, s)

namespace Engine
variable {σ : Type}

def acquireFor (r : Reader) (position : UInt64) (roundUp : Bool) :
    Action (Engine × σ) Block := fun (e, s) =>
  match r.loadSize? position roundUp with
  | none => (.error .panic, (e, s))
  | some size =>
    let (result, memory) := e.memory.acquire size r.bufferKind
    (result, ({ e with memory }, s))

def readInto (read : PhysicalRead (Engine × σ)) (position : UInt64) (b : Block) :
    Action (Engine × σ) Block := fun s =>
  match read position b s with
  | ((.ok (), b), s) => (.ok b, s)
  | ((.error failure, b), (e, s)) => (.error failure, (e.onMemory (·.giveBack b), s))

def loadBlock (r : Reader) (read : PhysicalRead (Engine × σ)) (position : UInt64)
    (roundUp : Bool) : Action (Engine × σ) Block := do
  readInto read position (← acquireFor r position roundUp)

def adoptLoaded (e : Engine) (position : UInt64) :
    Except Failure Block → Except Failure ChunkRef × Engine
  | .ok b =>
    let (chunk, memory) := e.memory.adopt b position
    (.ok chunk, { e with memory })
  | .error failure => (.error failure, e)

def reference (chunk : ChunkRef) : Action (Engine × σ) Bool := fun (e, s) =>
  let (result, memory) := e.memory.reference chunk
  (result, ({ e with memory }, s))

end Engine

def Reader.chunkId (r : Reader) (position : UInt64) : ChunkId := ⟨r.path, r.kind, position⟩

inductive Access.Mode where
  /-- through the table, with so many attempts to get a reference -/
  | cached (attempts : UInt32)
  /-- past the table -/
  | direct
  deriving DecidableEq, Repr

/-- Access to the chunks of a file: through the table, or by a fresh read each time. -/
structure Access where
  reader : Reader
  mode : Access.Mode
  /-- What watches the access, outermost first. -/
  watchers : List String := []

namespace Access

/-- No attempts at all count as one. -/
def cached? (r : Reader) (attempts : UInt32) : Except Error Access :=
  if isPowerOfTwo r.statedChunkSize then .ok ⟨r, .cached (max attempts 1), []⟩
  else .error (.invalidChunkSize r.statedChunkSize)

def direct? (r : Reader) : Except Error Access :=
  if isPowerOfTwo r.statedChunkSize then .ok ⟨r, .direct, []⟩
  else .error (.invalidChunkSize r.statedChunkSize)

def isCached (a : Access) : Bool :=
  match a.mode with
  | .cached _ => true
  | .direct => false

def mask (a : Access) : UInt64 := ~~~(a.reader.statedChunkSize - 1)

def aligned (a : Access) (position : UInt64) : UInt64 := position &&& a.mask

def chunkId (a : Access) (position : UInt64) : ChunkId := a.reader.chunkId (a.aligned position)

def describe (a : Access) : String :=
  match a.mode with
  | .cached attempts =>
    Text.record "CachingRebufferer"
      [("source", a.reader.describe), ("alignment_mask", "0x" ++ hexText a.mask.toNat),
        ("max_attempts", toString attempts)]
  | .direct => Text.record "UnbufferedRebufferer" [("source", a.reader.describe)]

def text (a : Access) : String :=
  (if a.isCached then "CachingRebufferer:" else "UnbufferedRebufferer:") ++ a.reader.path

variable {σ : Type}

/-- Asks for a chunk until a reference to it can be had: between the two it may have been evicted
and given up. -/
def attempt (k : ChunkId) (load : Action (Engine × σ) Block) (attempts : UInt32) :
    (left : Nat) → Action (Engine × σ) ChunkRef
  | 0 => Action.fail (.cacheExhausted k.text attempts)
  | left + 1 => do
    let chunk ← Engine.getOrLoadWith k load
    if ← Engine.reference chunk then return chunk
    attempt k load attempts left

def rebuffer (a : Access) (read : PhysicalRead (Engine × σ)) (position : UInt64) :
    Action (Engine × σ) ChunkRef := fun (e, s) =>
  let start := a.aligned position
  match a.mode with
  | .cached attempts =>
    attempt (a.chunkId position) (Engine.loadBlock a.reader read start e.store.settings.roundUp)
      attempts attempts.toNat (e, s)
  | .direct =>
    let (loaded, e, s) := Engine.loadBlock a.reader read start false (e, s)
    let (result, e) := e.adoptLoaded start loaded
    (result, (e, s))

end Access
end ReadCache
