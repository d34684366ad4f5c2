namespace ReadCache

inductive Error where
  | io (text : String)
  | corruption (path : String) (position : UInt64) (reason : String)
  | cacheExhausted (key : String) (attempts : UInt32)
  | invalidChunkSize (size : UInt64)
  | capacityImmutable
  | config (reason : String)
  | bufferAllocation (size : UInt64) (reason : String)
  | positionOutOfBounds (path : String) (position length : UInt64)
  | readerClosed (path : String)
  | loadAbandoned (key : String)
  deriving DecidableEq, Repr

namespace Error

def message : Error → String
  | io text => s!"I/O error: {text}"
  | corruption path position reason =>
    s!"Corrupted chunk in {path} at position {position}: {reason}"
  | cacheExhausted key attempts =>
    s!"Could not acquire a reference to chunk {key} after {attempts} attempts. " ++
    "This is likely due to the chunk cache being too small for the number of " ++
    "concurrently running requests, or to a reference counting error such as " ++
    "a double release"
  | invalidChunkSize size => s!"Chunk size {size} must be a power of two"
  | capacityImmutable => "Chunk cache capacity cannot be changed at runtime"
  | config reason => s!"Configuration error: {reason}"
  | bufferAllocation size reason => s!"Buffer allocation failed for size {size}: {reason}"
  | positionOutOfBounds path position length =>
    s!"Position {position} is beyond the end of {path} (length {length})"
  | readerClosed path => s!"Reader for {path} is closed"
  | loadAbandoned key => s!"Load of chunk {key} was abandoned before completing"

def isCorruption : Error → Bool
  | corruption .. => true
  | _ => false

def cause? : Error → Option String
  | io text => some text
  | _ => none

end Error

/-- How a call ends when it gives no value: with an error, with a panic, or not at all, because
it waits for something that nobody is left to give. -/
inductive Failure where
  | error (e : Error)
  | panic
  | stuck
  deriving DecidableEq, Repr

/-- A call on a state of type `σ`. What it did to the state stays done when it fails. -/
abbrev Action (σ : Type) := ExceptT Failure (StateM σ)

namespace Action
variable {σ α : Type}

def fail (e : Error) : Action σ α := throw (.error e)

end Action

end ReadCache
