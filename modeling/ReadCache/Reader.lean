import ReadCache.ByteSource
import ReadCache.Number.Shortest
import ReadCache.Number.PowerOfTwo
import ReadCache.Pool.FreeLists
import ReadCache.Text.Quoted

namespace ReadCache

/-- Readers give the chunks of a file: pieces of a power of two of bytes, the last one shorter. -/
structure Reader where
  source : ByteSource
  chunkSize : UInt64
  /-- The length the file is taken to have, which its source may belie. -/
  length : UInt64
  bufferKind : BufferKind
  /-- Chunks of readers of different kinds are kept apart. -/
  kind : String
  closed : Bool
  crcCheckChance : Binary64
  /-- The chunk size that others go by. -/
  statedChunkSize : UInt64

namespace Reader

def simpleKind : String := "chunk_cache::io::reader::SimpleChunkReader"

def withLength? (source : ByteSource) (chunkSize length : UInt64) : Except Error Reader :=
  if isPowerOfTwo chunkSize then
    .ok
      { source, chunkSize, length
        bufferKind := .standard
        kind := simpleKind
        closed := false
        crcCheckChance := .one
        statedChunkSize := chunkSize }
  else .error (.invalidChunkSize chunkSize)

def open? (source : ByteSource) (chunkSize : UInt64) : Except Error Reader := do
  withLength? source chunkSize (← source.size)

def path (r : Reader) : String := r.source.path

def close (r : Reader) : Reader := { r with closed := true }

def describe (r : Reader) : String :=
  Text.record "SimpleChunkReader"
    [("path", Text.quoted r.path), ("chunk_size", toString r.chunkSize),
      ("file_length", toString r.length)]

def chunkLength (r : Reader) (position : UInt64) : Nat :=
  min (r.length.toNat - position.toNat) r.chunkSize.toNat

/-- How reads up to a wanted length ended: with all of it, at an early end of the data, or with an
error. The last two keep what came before. -/
inductive Filling where
  | full (bytes : ByteArray)
  | short (bytes : ByteArray)
  | broken (bytes : ByteArray) (e : Error)

/-- Reads on from `position + bytes.size` until `length` bytes are there. Each read gives at least
one byte or ends it, so no more reads are needed than bytes are missing. -/
def fillFrom (source : ByteSource) (position : UInt64) (length : Nat) :
    (missing : Nat) → (bytes : ByteArray) → Filling
  | 0, bytes => .full bytes
  | missing + 1, bytes =>
    if length ≤ bytes.size then .full bytes
    else match source.readAt (position + .ofNat bytes.size) (length - bytes.size) with
      | .error e => .broken bytes e
      | .ok piece =>
        if piece.size = 0 then .short bytes
        else fillFrom source position length missing (bytes ++ piece)

def fill (source : ByteSource) (position : UInt64) (length : Nat) : Filling :=
  fillFrom source position length length ByteArray.empty

def zeros (n : Nat) : ByteArray := (List.replicate n 0).foldl ByteArray.push ByteArray.empty

def endOfFile (r : Reader) (position : UInt64) (filled length : Nat) : Error :=
  .corruption r.path position s!"unexpected end of file after {filled} of {length} bytes"

/-- Reads the chunk at a position into a block. The block is left as it was if no read is made,
emptied if it cannot hold the chunk or the data end early, and filled up with zeros if a read
fails. -/
def readChunk (r : Reader) (position : UInt64) (b : Block) : Except Failure Unit × Block :=
  if position % r.chunkSize ≠ 0 then (.error .panic, b)
  else if r.closed then (.error (.error (.readerClosed r.path)), b)
  else if r.length ≤ position then
    (.error (.error (.positionOutOfBounds r.path position r.length)), b)
  else
    let length := r.chunkLength position
    if !b.fits length then (.error .panic, b.clear)
    else match fill r.source position length with
    | .full bytes => (.ok (), b.fill bytes)
    | .short bytes =>
      (.error (.error (r.endOfFile position bytes.size length)),
        { b with capacity := Block.grownCapacity b.capacity length }.clear)
    | .broken bytes e =>
      (.error (.error e), b.fill (bytes ++ zeros (length - bytes.size)))

/-- What a load asks the pool for: the chunk as the stated size cuts it, at least one byte, rounded
up to a power of two if wanted. -/
def loadSize? (r : Reader) (position : UInt64) (roundUp : Bool) : Option UInt64 :=
  let length := max 1 (min (r.length.toNat - position.toNat) r.statedChunkSize.toNat)
  if roundUp then (powerOfTwoFrom? length).map .ofNat else some (.ofNat length)

end Reader
end ReadCache
