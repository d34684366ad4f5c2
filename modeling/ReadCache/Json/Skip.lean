import ReadCache.Json.Number

namespace ReadCache.Json

/-- Values that nobody reads are skipped at any depth: only the frames that are open are
remembered. -/
inductive Frame where
  | array
  | object
  deriving DecidableEq, Repr

def Frame.close : Frame → UInt8
  | array => byte ']'
  | object => byte '\x7d'

def skipScalar (b : UInt8) (s : Bytes) : Except Fault (Option Frame × Bytes) :=
  if b = byte 'n' then return (none, ← expectWord "ull" s)
  else if b = byte 't' then return (none, ← expectWord "rue" s)
  else if b = byte 'f' then return (none, ← expectWord "alse" s)
  else if b = byte '-' then return (none, ← skipNumber s)
  else if isDigit b then return (none, ← skipNumber (b :: s))
  else if b = byte '"' then return (none, ← skipString s)
  else if b = byte '[' then return (some .array, s)
  else if b = byte '\x7b' then return (some .object, s)
  else .error .malformed

def skipKey (s : Bytes) : Except Fault Bytes :=
  match skipBlanks s with
  | [] => .error .ended
  | b :: s =>
    if b ≠ byte '"' then .error .malformed
    else do
      let s ← skipString s
      match skipBlanks s with
      | [] => .error .ended
      | b :: s => if b = byte ':' then .ok s else .error .malformed

inductive Place where
  | value
  | opened
  | filled
  deriving DecidableEq, Repr

/-- Every round takes a byte off the text or ends a frame it opened, so twice as many rounds as
bytes suffice. -/
def skipFrom : (rounds : Nat) → Place → List Frame → Bytes → Except Fault Bytes
  | 0, _, _, _ => .error .ended
  | rounds + 1, .value, frames, s =>
    match skipBlanks s with
    | [] => .error .ended
    | b :: s => do
      match ← skipScalar b s with
      | (some frame, s) => skipFrom rounds .opened (frame :: frames) s
      | (none, s) => skipFrom rounds .filled frames s
  | _ + 1, _, [], s => .ok s
  | rounds + 1, place, frame :: frames, s =>
    match skipBlanks s with
    | [] => .error .ended
    | b :: rest =>
      if b = frame.close then skipFrom rounds .filled frames rest
      else do
        let s ← match place with
          | .filled => if b = byte ',' then .ok rest else .error .malformed
          | _ => .ok (b :: rest)
        let s ← match frame with
          | .object => skipKey s
          | .array => .ok s
        skipFrom rounds .value (frame :: frames) s

def skipValue (s : Bytes) : Except Fault Bytes := skipFrom (2 * s.length + 2) .value [] s

end ReadCache.Json
