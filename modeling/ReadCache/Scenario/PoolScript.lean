import ReadCache.Pool.Basic

namespace ReadCache.Scenario

inductive PoolStep where
  | acquire (name : String) (size : UInt64) (kind : BufferKind)
  /-- Asks for a kind of block that there is none of. -/
  | acquireUnknown
  | write (name : String) (count : UInt64) (byte : UInt8)
  | release (name : String)
  /-- Gives the pool a block it never handed out. -/
  | releaseForeign (size : UInt64)
  | describe
  deriving Repr

inductive PoolReply where
  | acquired (capacity length : Nat)
  | unknownKind
  | failed (failure : Failure)
  | written (capacity : Nat) (bytes : ByteArray)
  | nothing
  | descriptions (lines : List String)
  | noSuchBlock

structure PoolBench where
  pool : Pool
  blocks : Bindings String Block := []

namespace PoolStep

def run : PoolStep → PoolBench → PoolReply × PoolBench
  | acquire name size kind, b =>
    match b.pool.acquire size kind with
    | (.ok block, pool) =>
      (.acquired block.capacity block.bytes.size,
        { b with pool, blocks := b.blocks.insert name block })
    | (.error failure, pool) => (.failed failure, { b with pool })
  | acquireUnknown, b => (.unknownKind, b)
  | write name count byte, b =>
    match b.blocks.get? name with
    | none => (.noSuchBlock, b)
    | some block =>
      let block := block.append count.toNat byte
      (.written block.capacity block.bytes, { b with blocks := b.blocks.insert name block })
  | release name, b =>
    match b.blocks.get? name with
    | none => (.noSuchBlock, b)
    | some block =>
      let (allowed, pool) := b.pool.release block
      (if allowed then .nothing else .failed .panic,
        { b with pool, blocks := b.blocks.erase name })
  | releaseForeign size, b =>
    match b.pool.free.make size.toNat with
    | (.error failure, _) => (.failed failure, b)
    | (.ok block, free) =>
      let (allowed, pool) := { b.pool with free }.release block
      (if allowed then .nothing else .failed .panic, { b with pool })
  | describe, b => (.descriptions [b.pool.describeFree, b.pool.describe], b)

def counts (p : Pool) : List Nat := [p.acquired, p.released, p.outstanding, p.free.retainedBytes]

def runAll : List PoolStep → PoolBench → List (PoolReply × List Nat) × PoolBench
  | [], b => ([], b)
  | step :: rest, b =>
    let (reply, b) := step.run b
    let (replies, last) := runAll rest b
    ((reply, counts b.pool) :: replies, last)

end PoolStep
end ReadCache.Scenario
