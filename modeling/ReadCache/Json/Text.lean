namespace ReadCache.Json

/-- The first thing wrong with a text decides what it is refused for. -/
inductive Fault where
  /-- The text ends too early. -/
  | ended
  /-- The text is no JSON. -/
  | malformed
  /-- The value is not of the type it should be of. -/
  | mistyped
  deriving DecidableEq, Repr

abbrev Bytes := List UInt8

abbrev Reading (α : Type) := Bytes → Except Fault (α × Bytes)

def byte (c : Char) : UInt8 := c.toUInt8

def isBlank (b : UInt8) : Bool := b = 0x20 || b = 0x0a || b = 0x09 || b = 0x0d

def isDigit (b : UInt8) : Bool := 0x30 ≤ b && b ≤ 0x39

def skipBlanks (s : Bytes) : Bytes := s.dropWhile isBlank

def missing : Bytes → Fault
  | [] => .ended
  | _ => .malformed

def expect : Bytes → Bytes → Except Fault Bytes
  | [], s => .ok s
  | _, [] => .error .ended
  | w :: word, b :: s => if w = b then expect word s else .error .malformed

def expectWord (word : String) (s : Bytes) : Except Fault Bytes := expect word.toUTF8.toList s

def hexDigit? (b : UInt8) : Option Nat :=
  if isDigit b then some (b.toNat - 0x30)
  else if 0x61 ≤ b && b ≤ 0x66 then some (b.toNat - 0x57)
  else if 0x41 ≤ b && b ≤ 0x46 then some (b.toNat - 0x37)
  else none

def hexQuad : Reading Nat
  | a :: b :: c :: d :: s =>
    match hexDigit? a, hexDigit? b, hexDigit? c, hexDigit? d with
    | some a, some b, some c, some d => .ok (((a * 16 + b) * 16 + c) * 16 + d, s)
    | _, _, _, _ => .error .malformed
  | _ => .error .ended

def isLeading (n : Nat) : Bool := 0xd800 ≤ n && n ≤ 0xdbff

def isTrailing (n : Nat) : Bool := 0xdc00 ≤ n && n ≤ 0xdfff

/-- The character of a numeric escape whose letter has been read. Surrogates come in pairs. -/
def unicodeEscape (s : Bytes) : Except Fault (Char × Bytes) := do
  let (n, s) ← hexQuad s
  if isTrailing n then .error .malformed
  else if !isLeading n then .ok (Char.ofNat n, s)
  else match s with
    | [] => .error .ended
    | b :: s =>
      if b ≠ byte '\\' then .error .malformed
      else match s with
        | [] => .error .ended
        | b :: s =>
          if b ≠ byte 'u' then .error .malformed
          else
            let (m, s) ← hexQuad s
            if isTrailing m then
              .ok (Char.ofNat (0x10000 + (n - 0xd800) * 0x400 + (m - 0xdc00)), s)
            else .error .malformed

def simpleEscape? (b : UInt8) : Option UInt8 :=
  if b = byte '"' || b = byte '\\' || b = byte '/' then some b
  else if b = byte 'b' then some 0x08
  else if b = byte 'f' then some 0x0c
  else if b = byte 'n' then some 0x0a
  else if b = byte 'r' then some 0x0d
  else if b = byte 't' then some 0x09
  else none

def charBytes (c : Char) : Bytes := (String.singleton c).toUTF8.toList

def escape : Reading Bytes
  | [] => .error .ended
  | b :: s =>
    if b = byte 'u' then do
      let (c, s) ← unicodeEscape s
      return (charBytes c, s)
    else match simpleEscape? b with
      | some c => .ok ([c], s)
      | none => .error .malformed

/-- An escape that nobody reads: its surrogates may stand alone. -/
def skipEscape : Bytes → Except Fault Bytes
  | [] => .error .ended
  | b :: s =>
    if b = byte 'u' then do
      let (_, s) ← hexQuad s
      return s
    else match simpleEscape? b with
      | some _ => .ok s
      | none => .error .malformed

/-- The rest of a string after its opening quote. Every round takes a byte off the text. -/
def stringFrom : (rounds : Nat) → Reading Bytes
  | 0, _ => .error .ended
  | _ + 1, [] => .error .ended
  | rounds + 1, b :: s =>
    if b = byte '"' then .ok ([], s)
    else if b = byte '\\' then do
      let (c, s) ← escape s
      let (rest, s) ← stringFrom rounds s
      return (c ++ rest, s)
    else if b < 0x20 then .error .malformed
    else do
      let (rest, s) ← stringFrom rounds s
      return (b :: rest, s)

def stringBody (s : Bytes) : Except Fault (String × Bytes) := do
  let (bytes, s) ← stringFrom (s.length + 1) s
  return ((String.fromUTF8? ⟨bytes.toArray⟩).getD "", s)

def skipStringFrom : (rounds : Nat) → Bytes → Except Fault Bytes
  | 0, _ => .error .ended
  | _ + 1, [] => .error .ended
  | rounds + 1, b :: s =>
    if b = byte '"' then .ok s
    else if b = byte '\\' then do skipStringFrom rounds (← skipEscape s)
    else if b < 0x20 then .error .malformed
    else skipStringFrom rounds s

def skipString (s : Bytes) : Except Fault Bytes := skipStringFrom (s.length + 1) s

end ReadCache.Json
