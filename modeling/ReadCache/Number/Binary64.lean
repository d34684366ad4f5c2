namespace ReadCache

open Nat (pow)

/-- Arithmetic on these words is exact on naturals and rounded once; nothing here uses the machine's
floating point unit. -/
structure Binary64 where
  bits : UInt64
  deriving DecidableEq, Repr

namespace Binary64

def zero : Binary64 := ⟨0⟩
def one : Binary64 := ⟨0x3ff0000000000000⟩
def infinity : Binary64 := ⟨0x7ff0000000000000⟩
def nan : Binary64 := ⟨0x7ff8000000000000⟩

/-- A word without its sign: not a number, infinite, or `significand * 2 ^ exponent`. -/
inductive Magnitude where
  | nan
  | infinite
  | finite (significand : Nat) (exponent : Int)
  deriving DecidableEq, Repr

def isNegative (x : Binary64) : Bool := pow 2 63 ≤ x.bits.toNat

def magnitude (x : Binary64) : Magnitude :=
  let w := x.bits.toNat % pow 2 63
  let field : Nat := w / pow 2 52
  let fraction : Nat := w % pow 2 52
  if field = 2047 then if fraction = 0 then .infinite else .nan
  else if field = 0 then .finite fraction (-1074)
  else .finite (pow 2 52 + fraction) ((field : Int) - 1075)

def withSign (negative : Bool) (x : Binary64) : Binary64 :=
  ⟨UInt64.ofNat (x.bits.toNat % pow 2 63 + if negative then pow 2 63 else 0)⟩

def neg (x : Binary64) : Binary64 := x.withSign (!x.isNegative)

def divEven (num den : Nat) : Nat :=
  let q := num / den
  let r := num % den
  if 2 * r < den ∨ (2 * r = den ∧ q % 2 = 0) then q else q + 1

def ratioLog2 (num den : Nat) : Int :=
  let d : Int := (num.log2 : Int) - den.log2
  if num * pow 2 (-d).toNat < den * pow 2 d.toNat then d - 1 else d

def unitExponent (num den : Nat) : Int := max (ratioLog2 num den - 52) (-1074)

/-- The word nearest to `num / den`. A significand that rounds up to `2 ^ 53` carries into the
exponent by itself, and what passes the largest finite word is infinite. -/
def nearest (num den : Nat) : Binary64 :=
  if num = 0 then zero
  else
    let e := unitExponent num den
    let m := divEven (num * pow 2 (-e).toNat) (den * pow 2 e.toNat)
    ⟨UInt64.ofNat (min ((e + 1074).toNat * pow 2 52 + m) (2047 * pow 2 52))⟩

def ofNat (n : Nat) : Binary64 := nearest n 1

def nearestScaled (m : Nat) (e : Int) (n : Nat) (f : Int) : Binary64 :=
  nearest (m * pow 2 (e - f).toNat) (n * pow 2 (f - e).toNat)

def mul (x y : Binary64) : Binary64 :=
  let product := match x.magnitude, y.magnitude with
    | .nan, _ | _, .nan => nan
    | .infinite, .finite m _ | .finite m _, .infinite => if m = 0 then nan else infinity
    | .infinite, .infinite => infinity
    | .finite m e, .finite n f => nearestScaled (m * n) (e + f) 1 0
  product.withSign (x.isNegative != y.isNegative)

def div (x y : Binary64) : Binary64 :=
  let quotient := match x.magnitude, y.magnitude with
    | .nan, _ | _, .nan | .infinite, .infinite => nan
    | .infinite, .finite .. => infinity
    | .finite .., .infinite => zero
    | .finite m e, .finite n f =>
      if n = 0 then if m = 0 then nan else infinity else nearestScaled m e n f
  quotient.withSign (x.isNegative != y.isNegative)

def addMagnitudes (x y : Binary64) : Binary64 :=
  match x.magnitude, y.magnitude with
  | .nan, _ | _, .nan => nan
  | .infinite, _ | _, .infinite => infinity
  | .finite m e, .finite n f =>
    let g := min e f
    nearestScaled (m * pow 2 (e - g).toNat + n * pow 2 (f - g).toNat) g 1 0

def isZero (x : Binary64) : Bool := x.bits.toNat % pow 2 63 = 0

/-- Above zero and at most one. Positive words are in the order of their bits, and every other
word has larger bits than `one`. -/
def inUnitInterval (x : Binary64) : Bool := 0 < x.bits && x.bits ≤ one.bits

/-- Rounded toward zero into 64 bits. What is below is `0`, what is above is the largest word, and
what is no number is `0`. -/
def toWord (x : Binary64) : UInt64 :=
  match x.magnitude with
  | .nan => 0
  | .infinite => if x.isNegative then 0 else .ofNat (UInt64.size - 1)
  | .finite m e =>
    if x.isNegative then 0
    else .ofNat (min (m * pow 2 e.toNat / pow 2 (-e).toNat) (UInt64.size - 1))

end ReadCache.Binary64
