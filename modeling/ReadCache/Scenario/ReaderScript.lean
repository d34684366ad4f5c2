import ReadCache.Scenario.Setup
import ReadCache.ChunkId
import ReadCache.Access

namespace ReadCache.Scenario

/-- A read into memory that is filled with a mark before: what came, and the memory after it. -/
def readMarked (source : ByteSource) (position : UInt64) (length : Nat) :
    Except Error (Nat × ByteArray) := do
  let bytes ← source.readAt position length
  let marks := (List.replicate (length - bytes.size) 0xee).foldl ByteArray.push ByteArray.empty
  return (bytes.size, bytes ++ marks)

inductive ReaderStep where
  | read (position : UInt64)
  | close
  deriving Repr

structure ReaderReply where
  result : Except Failure Unit
  closed : Bool
  bytes : ByteArray

def ReaderStep.runAll : List ReaderStep → Reader → Block → List ReaderReply
  | [], _, _ => []
  | .read position :: rest, r, b =>
    let (result, b) := r.readChunk position b
    ⟨result, r.closed, b.bytes⟩ :: runAll rest r b
  | .close :: rest, r, b =>
    let r := r.close
    ⟨.ok (), r.closed, b.bytes⟩ :: runAll rest r b

inductive KeyStep where
  /-- the chunk of a new reader at a position -/
  | ofReader (setup : ReaderSetup) (position : UInt64)
  /-- the chunk of an earlier key's reader at a position -/
  | ofKey (index : Nat) (position : UInt64)

def KeyStep.build? (keys : List ChunkId) : KeyStep → Except Error ChunkId
  | .ofReader setup position => do return (← setup.build?).chunkId position
  | .ofKey index position =>
    return (keys[index]?.getD ⟨"", "", 0⟩).atPosition position

def KeyStep.buildAll? (steps : List KeyStep) : Except Error (List ChunkId) :=
  steps.foldlM (fun keys step => do return keys ++ [← step.build? keys]) []

def equalKeys (keys : List ChunkId) : List (Nat × Nat × Bool) :=
  let numbered := keys.zipIdx
  numbered.flatMap fun (k, i) =>
    (numbered.drop (i + 1)).filterMap fun (k', j) =>
      if k = k' then some (i, j, k.hash == k'.hash) else none

end ReadCache.Scenario
