namespace ReadCache

def fnv1aFrom (h : UInt64) (bytes : ByteArray) : UInt64 :=
  bytes.foldl (fun h b => (h ^^^ b.toUInt64) * 0x100000001b3) h

def fnv1a (bytes : ByteArray) : UInt64 := fnv1aFrom 0xcbf29ce484222325 bytes

inductive Digest where
  | whole (bytes : List UInt8)
  | ends (length : Nat) (hash : UInt64) (head tail : List UInt8)
  deriving DecidableEq, Repr

def digest (bytes : ByteArray) : Digest :=
  let n := bytes.size
  if n ≤ 16 then .whole bytes.toList
  else .ends n (fnv1a bytes) (bytes.extract 0 8).toList (bytes.extract (n - 8) n).toList

end ReadCache
