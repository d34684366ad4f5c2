import ReadCache.Pool.FreeLists
import ReadCache.Text.Quoted

namespace ReadCache

structure Pool where
  free : FreeLists := {}
  acquired : Nat := 0
  released : Nat := 0
  /-- The largest request that is served, where there is a limit. -/
  limit : Option UInt64 := none

namespace Pool

def outstanding (p : Pool) : Nat := p.acquired - p.released

def overLimit (p : Pool) (size : UInt64) : Bool := p.limit.any (· < size)

def acquire (p : Pool) (size : UInt64) (kind : BufferKind) : Except Failure Block × Pool :=
  if p.overLimit size then (.error (.error (.bufferAllocation size "limit")), p)
  else match p.free.acquire size kind with
    | (.ok block, free) => (.ok block, { p with free, acquired := p.acquired + 1 })
    | (.error failure, free) => (.error failure, { p with free })

/-- Takes a block back and tells whether it may: no more may come back than went out. One too many
is counted all the same, but not kept. -/
def release (p : Pool) (b : Block) : Bool × Pool :=
  let p := { p with released := p.released + 1 }
  if p.released ≤ p.acquired then (true, { p with free := p.free.release b }) else (false, p)

def describeFree (p : Pool) : String :=
  Text.record "HeapBufferPool"
    [("retained_bytes", toString p.free.retainedBytes),
      ("max_retained_bytes", toString p.free.maxRetainedBytes)]

def describe (p : Pool) : String :=
  Text.record "TrackingBufferPool"
    [("acquired", toString p.acquired), ("released", toString p.released)]

end Pool
end ReadCache
