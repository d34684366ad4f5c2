import ReadCache.Text.Digest
import ReadCache.Text.Quoted

namespace ReadCache

/-- Which chunk is meant. The reader that asks for it is no part of this, nor is the size of its
chunks. -/
structure ChunkId where
  path : String
  kind : String
  position : UInt64
  deriving DecidableEq, Repr

namespace ChunkId

def atPosition (k : ChunkId) (position : UInt64) : ChunkId := { k with position }

def text (k : ChunkId) : String := s!"{k.path}@{k.position}"

def describe (k : ChunkId) : String :=
  Text.record "ChunkKey"
    [("path", Text.quoted k.path), ("kind", Text.quoted k.kind),
      ("position", toString k.position)]

def hash (k : ChunkId) : UInt64 :=
  let h := fnv1aFrom (fnv1a k.path.toUTF8) k.kind.toUTF8
  ((h ^^^ k.position) * (0x9e3779b97f4a7c15 : UInt64)) >>> 7

end ChunkId
end ReadCache
