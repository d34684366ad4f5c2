import ReadCache.Scenario.Setup
import ReadCache.Cache

namespace ReadCache.Scenario

/-- Steps that can also be taken in the middle of a physical read. -/
inductive InnerStep where
  | read (access : String) (position : UInt64)
  | invalidate (access : String) (position : UInt64)
  | invalidateFile (path : String)
  | invalidateAll
  | setEnabled (value : Bool)
  | close (access : String)
  | resetMetrics
  | evict
  deriving Repr

inductive HookAction where
  | corrupt (reason : String)
  | ioError (text : String)
  | panic
  | step (s : InnerStep)
  deriving Repr

/-- Actions for the reads of one position, or of all: the first `skip` such reads pass, and the next
`times` ones set the actions off. -/
structure Hook where
  position : Option UInt64 := none
  skip : Nat := 0
  times : Option Nat := none
  actions : List HookAction
  /-- Matching reads so far. -/
  seen : Nat := 0
  deriving Repr

def Hook.applies (h : Hook) (position : UInt64) : Bool := h.position.all (· = position)

def Hook.fires (h : Hook) : Bool :=
  h.skip ≤ h.seen && h.times.all fun times => h.seen < h.skip + times

/-- How a held read or a loader of the script's own ends. -/
inductive Ending where
  | normal
  | corrupt
  | ioError
  | panic
  | allocation
  deriving DecidableEq, Repr

inductive AccessMode where
  /-- as the cache gives it -/
  | ofCache
  | cached (attempts : UInt32)
  | direct
  deriving DecidableEq, Repr

structure Filter where
  path : Option String := none
  kind : Option String := none
  below : Option UInt64 := none
  multipleOf : Option UInt64 := none
  deriving Repr

def Filter.accepts (f : Filter) (k : ChunkId) : Bool :=
  f.path.all (· = k.path) && f.kind.all (· = k.kind) && f.below.all (k.position < ·) &&
    f.multipleOf.all fun n => k.position % n = 0

inductive Step where
  | inner (s : InnerStep)
  | wrap (reader : Nat) (name : String) (mode : AccessMode) (align : List UInt64)
  | hold (access : String) (position : UInt64) (name : String)
  | view (handle : String)
  | share (handle name : String)
  | release (handle : String)
  | keep (handle name : String)
  | buffer (kept : String)
  | dropBuffer (kept : String)
  | reference (kept name : String)
  | info (access : String)
  | closeReader (access : String)
  | closeFactory (access : String)
  | dropAccess (access : String)
  | setCapacity (value : UInt64)
  | sizes
  | metrics
  | reads (reader : Nat)
  | dropCache
  | get (reader : Nat) (position : UInt64) (name : Option String)
  | loadWith (reader : Nat) (position : UInt64) (ending : Ending)
  | remove (reader : Nat) (position : UInt64)
  | removeMatching (filter : Filter)
  | race (reader : Nat) (position : UInt64) (waiters : Nat) (ending : Ending) (invalidated : Bool)
      (access : Option String)
  | takeover (reader : Nat) (position : UInt64) (first second : Ending)
  deriving Repr

inductive Missing where
  | access
  | handle
  | buffer
  | reader
  | cache
  | store
  | race
  deriving DecidableEq, Repr

def Missing.message : Missing → String
  | access => "no such rebufferer"
  | handle => "no such handle"
  | buffer => "no such buffer"
  | reader => "no such reader"
  | cache => "no cache"
  | store => "no store"
  | race => "nothing to race on"

structure ChunkView where
  offset : UInt64
  capacity : Nat
  references : Nat
  deriving DecidableEq, Repr

structure HandleView where
  chunk : ChunkView
  bytes : ByteArray

/-- The state as every step shows it. -/
structure Snapshot where
  /-- Entries, weight, hits, misses, loads that succeeded and failed, and removals by cause; nothing
  once the script let go of the store. -/
  counts : Option (List Nat)
  /-- Blocks acquired, released and outstanding, and the bytes the pool retains. -/
  pool : List Nat
  deriving DecidableEq, Repr

structure RaceView where
  view : Sum HandleView ChunkView
  shared : Bool

inductive Reply where
  | nothing
  | flag (value : Bool)
  | count (n : Nat)
  | done
  | failed (failure : Failure)
  | missing (m : Missing)
  | handle (v : HandleView)
  | held (v : HandleView) (same : List String)
  | viewed (v : HandleView) (descriptions : List String)
  | chunk (v : ChunkView)
  | unreferenced (v : ChunkView)
  | wrapped (log : List String) (description text : Option String)
      (aligned : Option (List UInt64))
  | info (length : UInt64) (path : String) (crcCheckChance : Binary64)
  | fixedCapacity (e : Error) (capacity : UInt64)
  | storeSizes (capacity : UInt64) (size weightedSize : Nat)
  | cacheSizes (capacity : UInt64) (size weightedSize : Nat) (enabled : Bool) (description : String)
  | metrics (ratio : Binary64) (text : String)
  | reads (counts : List (UInt64 × Nat))
  | loaded (called : Bool) (result : Except Failure ChunkView)
  | raced (results : List (Except Failure RaceView)) (invalidated : Option Bool)
  | takenOver (removed : Bool) (before : Snapshot) (first : Except Failure ChunkView)
      (between : Snapshot) (second : Except Failure ChunkView)

end ReadCache.Scenario
