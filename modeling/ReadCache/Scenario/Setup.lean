import ReadCache.Reader

namespace ReadCache.Scenario

structure SourceSetup where
  path : String
  content : ByteArray
  isFile : Bool := false
  isMissing : Bool := false
  maxRead : Option UInt64 := none
  ioErrorAt : Option UInt64 := none
  sizeError : Bool := false

namespace SourceSetup

def base? (s : SourceSetup) : Except Error ByteSource :=
  if s.isFile then ByteSource.openFile s.path (if s.isMissing then none else some s.content)
  else .ok (.ofMemory s.path s.content)

/-- A failing position is looked at before a read is cut short. -/
def build? (s : SourceSetup) : Except Error ByteSource := do
  let source ← s.base?
  let source := match s.maxRead with
    | some most => source.atMost most.toNat
    | none => source
  let source := match s.ioErrorAt with
    | some start => source.failingFrom start (.io "device not ready")
    | none => source
  return if s.sizeError then source.withoutSize (.io "size unavailable") else source

end SourceSetup

structure ReaderSetup where
  source : SourceSetup
  chunkSize : UInt64
  /-- Without it the source is asked for its size. -/
  length : Option UInt64 := none
  bufferKind : BufferKind := .standard
  kind : String := Reader.simpleKind
  crcCheckChance : Binary64 := .one
  statedChunkSize : Option UInt64 := none

def ReaderSetup.build? (s : ReaderSetup) : Except Error Reader := do
  let source ← s.source.build?
  let reader ← match s.length with
    | some length => Reader.withLength? source s.chunkSize length
    | none => Reader.open? source s.chunkSize
  return { reader with
    bufferKind := s.bufferKind
    kind := s.kind
    crcCheckChance := s.crcCheckChance
    statedChunkSize := s.statedChunkSize.getD s.chunkSize }

end ReadCache.Scenario
