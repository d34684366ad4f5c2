import ReadCache.Bindings
import ReadCache.Error
import ReadCache.Pool.Block

namespace ReadCache

inductive BufferKind where
  | standard
  /-- rounded up to whole pages -/
  | aligned
  deriving DecidableEq, Repr

def pageSize : Nat := 4096

def BufferKind.capacityFor? : BufferKind → (size : Nat) → Option Nat
  | standard, size => some size
  | aligned, size =>
    if size + (pageSize - 1) < UInt64.size then some ((size + (pageSize - 1)) / pageSize * pageSize)
    else none

/-- Blocks that came back wait in a list for their capacity, up to a number of bytes in all, and are
given out again, the last one first. -/
structure FreeLists where
  lists : Bindings Nat (List Block) := []
  retainedBytes : Nat := 0
  maxRetainedBytes : UInt64 := 67108864
  /-- The identity of the next block that is made. -/
  nextId : Nat := 0

namespace FreeLists

def make (f : FreeLists) (capacity : Nat) : Except Failure Block × FreeLists :=
  if capacity < Block.capacityLimit then
    (.ok { id := f.nextId, capacity }, { f with nextId := f.nextId + 1 })
  else (.error .panic, f)

def zeroSize (size : UInt64) : Error := .bufferAllocation size "size must be greater than 0"

def acquire (f : FreeLists) (size : UInt64) (kind : BufferKind) :
    Except Failure Block × FreeLists :=
  if size = 0 then (.error (.error (zeroSize size)), f)
  else match kind.capacityFor? size.toNat with
    | none => (.error .panic, f)
    | some capacity =>
      match f.lists.get? capacity with
      | some (block :: rest) =>
        (.ok block, { f with
          lists := f.lists.insert capacity rest
          retainedBytes := f.retainedBytes - capacity })
      | _ => f.make capacity

def release (f : FreeLists) (b : Block) : FreeLists :=
  if f.maxRetainedBytes.toNat < f.retainedBytes + b.capacity then f
  else { f with
    lists := f.lists.insert b.capacity (b.clear :: (f.lists.get? b.capacity).getD [])
    retainedBytes := f.retainedBytes + b.capacity }

end FreeLists
end ReadCache
