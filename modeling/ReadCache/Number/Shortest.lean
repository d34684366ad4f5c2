import ReadCache.Number.Binary64

namespace ReadCache.Binary64

open Nat (pow)

def ratioLog10 (num den : Nat) : Int :=
  let d : Int := ((Nat.toDigits 10 num).length : Int) - (Nat.toDigits 10 den).length
  if num * pow 10 (-d).toNat < den * pow 10 d.toNat then d - 1 else d

def ofDecimal (digits : Nat) (scale : Int) : Binary64 :=
  nearest (digits * pow 10 scale.toNat) (pow 10 (-scale).toNat)

/-- Where a value goes that lies in the middle of two decimals. -/
inductive Tie where
  | up
  | even
  deriving DecidableEq, Repr

def Tie.roundsDown (tie : Tie) (n d : Nat) : Bool :=
  2 * (n % d) < d || (2 * (n % d) = d && tie = even && n / d % 2 = 0)

/-- Of the two neighbours of `num / den` among the multiples of `10 ^ scale`, one that reads back as
`x`, and the nearer if both do. -/
def neighbour? (tie : Tie) (x : Binary64) (num den : Nat) (scale : Int) : Option Nat :=
  let n := num * pow 10 (-scale).toNat
  let d := den * pow 10 scale.toNat
  let low := n / d
  let up := low + 1
  match ofDecimal low scale == x, ofDecimal up scale == x with
  | true, true => some (if tie.roundsDown n d then low else up)
  | true, false => some low
  | false, true => some up
  | false, false => none

/-- Tries longer and longer decimals; with seventeen digits one always reads back. -/
def shortestFrom (tie : Tie) (x : Binary64) (num den : Nat) (top : Int) :
    (tries : Nat) → Nat × Int
  | 0 => (num / den, 0)
  | tries + 1 =>
    let scale := top - (16 - tries : Nat)
    match neighbour? tie x num den scale with
    | some digits => (digits, scale)
    | none => shortestFrom tie x num den top tries

def shortest (tie : Tie) (m : Nat) (e : Int) : Nat × Int :=
  let num := m * pow 2 e.toNat
  let den := pow 2 (-e).toNat
  shortestFrom tie (nearest num den) num den (ratioLog10 num den) 17

def positional (digits : Nat) (scale : Int) : String :=
  let text := Nat.repr digits
  if 0 ≤ scale then text ++ "".pushn '0' scale.toNat
  else
    let places := (-scale).toNat
    let padded := "".pushn '0' (places + 1 - text.length) ++ text
    let whole := padded.length - places
    let fraction := (padded.toList.drop whole).reverse.dropWhile (· == '0') |>.reverse
    String.ofList (padded.toList.take whole) ++
      if fraction.isEmpty then "" else "." ++ String.ofList fraction

def text (x : Binary64) : String :=
  let sign := if x.isNegative then "-" else ""
  match x.magnitude with
  | .nan => "NaN"
  | .infinite => sign ++ "inf"
  | .finite m e =>
    if m = 0 then sign ++ "0"
    else
      let (digits, scale) := shortest .up m e
      sign ++ positional digits scale

def textTwoPlaces (x : Binary64) : String :=
  let sign := if x.isNegative then "-" else ""
  match x.magnitude with
  | .nan => "NaN"
  | .infinite => sign ++ "inf"
  | .finite m e =>
    let hundredths := divEven (100 * m * pow 2 e.toNat) (pow 2 (-e).toNat)
    let places := Nat.repr (hundredths % 100)
    sign ++ Nat.repr (hundredths / 100) ++ "." ++ "".pushn '0' (2 - places.length) ++ places

end ReadCache.Binary64
