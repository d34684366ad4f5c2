namespace ReadCache
namespace Utf8

def replacement : Char := Char.ofNat 0xFFFD

/-- A character of which some bytes are to come: how many, between which bounds the next of them
must lie, and the number that those so far make. -/
structure Begun where
  left : Nat
  least : Nat
  most : Nat
  number : Nat
  deriving DecidableEq, Repr

/-- What a first byte begins. The bounds leave out overlong forms, surrogates and numbers that no
character has. -/
def lead? (b : Nat) : Option Begun :=
  let least := if b = 0xE0 then 0xA0 else if b = 0xF0 then 0x90 else 0x80
  let most := if b = 0xED then 0x9F else if b = 0xF4 then 0x8F else 0xBF
  if 0xC2 ≤ b ∧ b < 0xE0 then some { left := 1, least, most, number := b - 0xC0 }
  else if 0xE0 ≤ b ∧ b < 0xF0 then some { left := 2, least, most, number := b - 0xE0 }
  else if 0xF0 ≤ b ∧ b < 0xF5 then some { left := 3, least, most, number := b - 0xF0 }
  else none

def first (b : Nat) : List Char × Option Begun :=
  if b < 0x80 then ([Char.ofNat b], none)
  else match lead? b with
    | some p => ([], some p)
    | none => ([replacement], none)

def Begun.next (p : Begun) (b : Nat) : List Char × Option Begun :=
  if p.least ≤ b ∧ b ≤ p.most then
    let number := p.number * 64 + (b - 0x80)
    if p.left = 1 then ([Char.ofNat number], none)
    else ([], some { left := p.left - 1, least := 0x80, most := 0xBF, number })
  else (replacement :: (first b).1, (first b).2)

/-- The characters that bytes make, one replacement for each piece that makes none. -/
def chars : Option Begun → List Nat → List Char
  | none, [] => []
  | some _, [] => [replacement]
  | none, b :: bs => (first b).1 ++ chars (first b).2 bs
  | some p, b :: bs => (p.next b).1 ++ chars (p.next b).2 bs

end Utf8

/-- A name that a file is opened by, with the text of its path. Several names can have one text. -/
class FileName (Name : Type) where
  text : Name → String

instance : FileName String := ⟨id⟩

structure ByteName where
  bytes : List UInt8
  deriving DecidableEq, Repr

instance : FileName ByteName := ⟨fun n => String.ofList (Utf8.chars none (n.bytes.map UInt8.toNat))⟩

end ReadCache
