import ReadCache.Json.Skip

namespace ReadCache.Json

def mistypedValue (s : Bytes) : Fault :=
  let check {α : Type} : Except Fault α → Fault
    | .ok _ => .mistyped
    | .error fault => fault
  match s with
  | [] => .malformed
  | b :: rest =>
    if b = byte 'n' then check (expectWord "ull" rest)
    else if b = byte 't' then check (expectWord "rue" rest)
    else if b = byte 'f' then check (expectWord "alse" rest)
    else if b = byte '-' || isDigit b then check (number s)
    else if b = byte '"' then check (stringBody rest)
    else if b = byte '[' || b = byte '\x7b' then .mistyped
    else .malformed

def atValue {α : Type} (read : UInt8 → Bytes → Except Fault (α × Bytes)) : Reading α := fun s =>
  match skipBlanks s with
  | [] => .error .ended
  | b :: rest => read b rest

def numberValue {α : Type} (accept : Number → Option α) : Reading α :=
  atValue fun b rest =>
    if b = byte '-' || isDigit b then do
      let (n, rest) ← number (b :: rest)
      match accept n with
      | some a => return (a, rest)
      | none => .error .mistyped
    else .error (mistypedValue (b :: rest))

def naturalBelow (bound : Nat) : Reading Nat :=
  numberValue fun
    | .natural n => if n.toNat < bound then some n.toNat else none
    | _ => none

def wordValue : Reading UInt64 := fun s => do
  let (n, s) ← naturalBelow UInt64.size s
  return (.ofNat n, s)

def halfWordValue : Reading UInt32 := fun s => do
  let (n, s) ← naturalBelow UInt32.size s
  return (.ofNat n, s)

def realValue : Reading Binary64 :=
  numberValue fun
    | .natural n => some (.ofNat n.toNat)
    | .negative n => some (Binary64.ofNat n.natAbs).neg
    | .real x => some x

def boolValue : Reading Bool :=
  atValue fun b rest =>
    if b = byte 't' then return (true, ← expectWord "rue" rest)
    else if b = byte 'f' then return (false, ← expectWord "alse" rest)
    else .error (mistypedValue (b :: rest))

def stringValue : Reading String :=
  atValue fun b rest =>
    if b = byte '"' then stringBody rest else .error (mistypedValue (b :: rest))

def optionalValue {α : Type} (read : Reading α) : Reading (Option α) :=
  atValue fun b rest =>
    if b = byte 'n' then return (none, ← expectWord "ull" rest)
    else do
      let (a, rest) ← read (b :: rest)
      return (some a, rest)

/-- A record is read from an object with any of its fields, or from an array of the first of them in
order. A field that is not given keeps the value it had. -/
structure Field (α : Type) where
  name : String
  read : Reading (α → α)

def Field.of {α β : Type} (name : String) (read : Reading β) (set : β → α → α) : Field α where
  name := name
  read := fun s => do
    let (b, s) ← read s
    return (set b, s)

variable {α : Type}

def closeArray (s : Bytes) : Except Fault Bytes :=
  match skipBlanks s with
  | [] => .error .ended
  | b :: s => if b = byte ']' then .ok s else .error .malformed

def elements : List (Field α) → (first : Bool) → α → Reading α
  | [], _, a, s => do return (a, ← closeArray s)
  | field :: fields, first, a, s =>
    match skipBlanks s with
    | [] => .error .ended
    | b :: rest =>
      if b = byte ']' then .ok (a, rest)
      else if first then element field fields a (b :: rest)
      else if b ≠ byte ',' then .error .malformed
      else match skipBlanks rest with
        | [] => .error .ended
        | b :: rest =>
          if b = byte ']' then .error .malformed else element field fields a (b :: rest)
where
  element (field : Field α) (fields : List (Field α)) (a : α) (s : Bytes) :
      Except Fault (α × Bytes) := do
    let (set, s) ← field.read s
    elements fields false (set a) s

def colon (s : Bytes) : Except Fault Bytes :=
  match skipBlanks s with
  | [] => .error .ended
  | b :: s => if b = byte ':' then .ok s else .error .malformed

/-- The value of a field by its name. A field that was seen before is refused at its name, and an
unknown one is skipped. -/
def member (fields : List (Field α)) (seen : List String) (a : α) (name : String) (s : Bytes) :
    Except Fault (List String × α × Bytes) :=
  match fields.find? (·.name = name) with
  | some field =>
    if name ∈ seen then .error .mistyped
    else do
      let (set, s) ← field.read (← colon s)
      return (name :: seen, set a, s)
  | none => do return (seen, a, ← skipValue (← colon s))

/-- The members of an object. Every round takes a byte off the text. -/
def members (fields : List (Field α)) :
    (rounds : Nat) → (first : Bool) → (seen : List String) → α → Reading α
  | 0, _, _, _, _ => .error .ended
  | rounds + 1, first, seen, a, s =>
    match skipBlanks s with
    | [] => .error .ended
    | b :: rest =>
      if b = byte '\x7d' then .ok (a, rest)
      else do
        let s ← if first then pure (b :: rest)
          else if b = byte ',' then pure (skipBlanks rest)
          else .error .malformed
        match s with
        | [] => .error .ended
        | b :: s =>
          if b ≠ byte '"' then .error .malformed
          else
            let (name, s) ← stringBody s
            let (seen, a, s) ← member fields seen a name s
            members fields rounds false seen a s

def record (fields : List (Field α)) (start : α) : Reading α :=
  atValue fun b rest =>
    if b = byte '[' then elements fields true start rest
    else if b = byte '\x7b' then members fields (rest.length + 1) true [] start rest
    else .error (mistypedValue (b :: rest))

def wholeText (read : Reading α) (text : String) : Except Fault α := do
  let (a, rest) ← read text.toUTF8.toList
  if (skipBlanks rest).isEmpty then return a else .error .malformed

end ReadCache.Json
