import ReadCache.Error

namespace ReadCache

open Nat (pow)

/-- Where the bytes of a file come from. A read may give fewer bytes than asked for, and gives none
at the end. -/
structure ByteSource where
  path : String
  size : Except Error UInt64
  readAt : (position : UInt64) → (length : Nat) → Except Error ByteArray

namespace ByteSource

def slice (data : ByteArray) (position length : Nat) : ByteArray :=
  data.extract position (min (position + length) data.size)

def ofMemory (path : String) (data : ByteArray) : ByteSource where
  path := path
  size := .ok (.ofNat data.size)
  readAt := fun position length => .ok (slice data position.toNat length)

def invalidArgument : Error := .io "Invalid argument (os error 22)"

def notFound : Error := .io "No such file or directory (os error 2)"

/-- A file with that content. Its positions are signed, so a read may not pass `2 ^ 63`. -/
def ofFile (path : String) (content : ByteArray) : ByteSource where
  path := path
  size := .ok (.ofNat content.size)
  readAt := fun position length =>
    if pow 2 63 ≤ position.toNat + length then .error invalidArgument
    else .ok (slice content position.toNat length)

def openFile (path : String) (content? : Option ByteArray) : Except Error ByteSource :=
  match content? with
  | some content => .ok (ofFile path content)
  | none => .error notFound

def atMost (most : Nat) (s : ByteSource) : ByteSource :=
  { s with readAt := fun position length => s.readAt position (min length most) }

def failingFrom (start : UInt64) (e : Error) (s : ByteSource) : ByteSource :=
  { s with readAt := fun position length =>
      if start ≤ position then .error e else s.readAt position length }

def withoutSize (e : Error) (s : ByteSource) : ByteSource := { s with size := .error e }

def pattern (length factor offset : Nat) : ByteArray :=
  (List.range length).foldl
    (fun bytes i => bytes.push (.ofNat (i * factor + i / 256 * 7 + offset))) ByteArray.empty

end ByteSource
end ReadCache
