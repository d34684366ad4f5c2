import ReadCache.Json.Text
import ReadCache.Number.Binary64

namespace ReadCache.Json

open Nat (pow)

/-- A number without point and exponent is an integer while its digits fit in 64 bits; every other
number is a binary64 word. -/
inductive Number where
  | natural (n : UInt64)
  /-- below zero, not below `-2 ^ 63` -/
  | negative (n : Int)
  | real (x : Binary64)
  deriving DecidableEq, Repr

def digitOf (b : UInt8) : Nat := b.toNat - 0x30

def wordLimit : Nat := UInt64.size

def exponentLimit : Nat := pow 2 31

/-- Gathers digits onto `n` until the next one does not fit in 64 bits. Gives the number, how many
digits it took and what follows. -/
def gather (n taken : Nat) : Bytes → Nat × Nat × Bytes
  | [] => (n, taken, [])
  | b :: s =>
    if isDigit b && n * 10 + digitOf b < wordLimit then gather (n * 10 + digitOf b) (taken + 1) s
    else (n, taken, b :: s)

def startsWithDigit : Bytes → Bool
  | b :: _ => isDigit b
  | [] => false

def startsWith (c : Char) : Bytes → Bool
  | b :: _ => b = byte c
  | [] => false

def startsExponent (s : Bytes) : Bool := startsWith 'e' s || startsWith 'E' s

def skipDigits (s : Bytes) : Bytes := s.dropWhile isDigit

def powerOfTen? (k : Nat) : Option Binary64 :=
  if k ≤ 308 then some (.nearest (pow 10 k) 1) else none

/-- `x * 10 ^ exponent` with one rounding for the power and one for the product. Exponents below
`-308` are worked off in strides, and after two of them nothing but zero is left. -/
def scale (x : Binary64) (exponent : Int) : (strides : Nat) → Except Fault Binary64
  | 0 => .ok .zero
  | strides + 1 =>
    match powerOfTen? exponent.natAbs with
    | some power =>
      if 0 ≤ exponent then
        let product := x.mul power
        if product = .infinity then .error .malformed else .ok product
      else .ok (x.div power)
    | none =>
      if x.isZero then .ok x
      else if 0 ≤ exponent then .error .malformed
      else scale (x.div (.nearest (pow 10 308) 1)) (exponent + 308) strides

def signed (positive : Bool) (x : Binary64) : Binary64 := if positive then x else x.neg

def realOf (positive : Bool) (digits : Nat) (exponent : Int) : Except Fault Number := do
  return .real (signed positive (← scale (.ofNat digits) exponent 4))

def exponentPart (positive : Bool) (digits : Nat) (start : Int) (s : Bytes) :
    Except Fault (Number × Bytes) :=
  let (up, s) := match s with
    | b :: rest =>
      if b = byte '+' then (true, rest) else if b = byte '-' then (false, rest) else (true, s)
    | [] => (true, s)
  if !startsWithDigit s then .error (missing s)
  else
    let numeral := s.takeWhile isDigit
    let rest := skipDigits s
    let exponent := numeral.foldl (fun n b => min (n * 10 + digitOf b) exponentLimit) 0
    if exponent < exponentLimit then do
      let total := if up then start + exponent else start - exponent
      return (← realOf positive digits total, rest)
    else if up && digits ≠ 0 then .error .malformed
    else .ok (.real (signed positive .zero), rest)

def fractionPart (positive : Bool) (digits before : Nat) (s : Bytes) :
    Except Fault (Number × Bytes) := do
  let (digits, taken, rest) := gather digits 0 s
  if taken = 0 && !startsWithDigit rest then .error (missing rest)
  else
    let start : Int := (before : Int) - taken
    let rest := skipDigits rest
    match rest with
    | b :: after =>
      if b = byte 'e' || b = byte 'E' then exponentPart positive digits start after
      else return (← realOf positive digits start, rest)
    | [] => return (← realOf positive digits start, rest)

def integerOf (positive : Bool) (n : Nat) : Number :=
  if positive then .natural (.ofNat n)
  else if 0 < n && n ≤ pow 2 63 then .negative (-n)
  else .real (Binary64.ofNat n).neg

def numberAfterSign (positive : Bool) (s : Bytes) : Except Fault (Number × Bytes) :=
  if !startsWithDigit s then .error (missing s)
  else if startsWith '0' s && startsWithDigit (s.drop 1) then .error .malformed
  else
    let (n, _, rest) := gather 0 0 s
    let more := rest.takeWhile isDigit
    match rest.drop more.length with
    | [] => finish n more.length []
    | b :: after =>
      if b = byte '.' then fractionPart positive n more.length after
      else if b = byte 'e' || b = byte 'E' then exponentPart positive n more.length after
      else finish n more.length (b :: after)
where
  finish (n more : Nat) (rest : Bytes) : Except Fault (Number × Bytes) := do
    if more = 0 then return (integerOf positive n, rest)
    else return (← realOf positive n more, rest)

def number (s : Bytes) : Except Fault (Number × Bytes) :=
  match s with
  | [] => .error .ended
  | b :: rest => if b = byte '-' then numberAfterSign false rest else numberAfterSign true s

/-- A number that nobody reads, after its sign: only its form counts, and a form that breaks off is
no number. -/
def skipNumber (s : Bytes) : Except Fault Bytes :=
  if !startsWithDigit s then .error .malformed
  else if startsWith '0' s && startsWithDigit (s.drop 1) then .error .malformed
  else
    let s := skipDigits s
    if startsWith '.' s then
      if !startsWithDigit (s.drop 1) then .error .malformed
      else skipExponent (skipDigits (s.drop 1))
    else skipExponent s
where
  skipExponent (s : Bytes) : Except Fault Bytes :=
    if !startsExponent s then .ok s
    else
      let s := s.drop 1
      let s := if startsWith '+' s || startsWith '-' s then s.drop 1 else s
      if startsWithDigit s then .ok (skipDigits s) else .error .malformed

end ReadCache.Json
