import ReadCache.Pool.Basic

namespace ReadCache

structure Chunk where
  offset : UInt64
  capacity : Nat
  references : UInt32
  /-- Gone once it is back in the pool. -/
  block : Option Block

namespace Chunk

def ofBlock (b : Block) (offset : UInt64) : Chunk := ⟨offset, b.capacity, 1, some b⟩

def view? (c : Chunk) : Option ByteArray :=
  if c.references = 0 then none
  else some ((c.block.map Block.bytes).getD ByteArray.empty)

/-- One more reference, unless there is none any more. The count does not pass 32 bits. -/
def reference (c : Chunk) : Except Failure Bool × Chunk :=
  if c.references = 0 then (.ok false, c)
  else if c.references.toNat + 1 < UInt32.size then
    (.ok true, { c with references := c.references + 1 })
  else (.error .panic, c)

/-- One more reference for a holder of one. Here the count wraps around. -/
def share (c : Chunk) : Chunk := { c with references := c.references + 1 }

def unreference (c : Chunk) : Option Block × Chunk :=
  if c.references = 0 then (none, c)
  else if c.references = 1 then (c.block, { c with references := 0, block := none })
  else (none, { c with references := c.references - 1 })

def describe (c : Chunk) : String :=
  Text.record "ChunkBuffer"
    [("offset", toString c.offset), ("capacity", toString c.capacity),
      ("references", toString c.references)]

def describeHandle (c : Chunk) : String :=
  Text.record "BufferHandle"
    [("offset", toString c.offset), ("len", toString ((c.view?.map ByteArray.size).getD 0))]

end Chunk

/-- Chunks are known by the order in which they were loaded. -/
abbrev ChunkRef := Nat

/-- The loaded chunks and the pool that their blocks come from. A chunk starts with one reference;
when the last is given up its block goes back. -/
structure Memory where
  pool : Pool := {}
  chunks : Array Chunk := #[]

namespace Memory

def chunk? (m : Memory) (c : ChunkRef) : Option Chunk := m.chunks[c]?

def setChunk (m : Memory) (c : ChunkRef) (chunk : Chunk) : Memory :=
  { m with chunks := m.chunks.setIfInBounds c chunk }

def acquire (m : Memory) (size : UInt64) (kind : BufferKind) : Except Failure Block × Memory :=
  let (result, pool) := m.pool.acquire size kind
  (result, { m with pool })

def giveBack (m : Memory) (b : Block) : Memory := { m with pool := (m.pool.release b).2 }

def adopt (m : Memory) (b : Block) (offset : UInt64) : ChunkRef × Memory :=
  (m.chunks.size, { m with chunks := m.chunks.push (.ofBlock b offset) })

def view? (m : Memory) (c : ChunkRef) : Option ByteArray := (m.chunk? c).bind Chunk.view?

def reference (m : Memory) (c : ChunkRef) : Except Failure Bool × Memory :=
  match m.chunk? c with
  | none => (.ok false, m)
  | some chunk =>
    let (result, chunk) := chunk.reference
    (result, m.setChunk c chunk)

def share (m : Memory) (c : ChunkRef) : Memory :=
  match m.chunk? c with
  | none => m
  | some chunk => m.setChunk c chunk.share

def unreference (m : Memory) (c : ChunkRef) : Memory :=
  match m.chunk? c with
  | none => m
  | some chunk =>
    let (block?, chunk) := chunk.unreference
    let m := m.setChunk c chunk
    match block? with
    | none => m
    | some block => m.giveBack block

end Memory
end ReadCache
