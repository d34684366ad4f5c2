import ReadCache.Number.Shortest

namespace ReadCache.Json

def scientific (digits : Nat) (scale : Int) : String :=
  let numeral := (Nat.repr digits).toList
  let exponent := toString (scale + numeral.length - 1)
  let kept := (numeral.reverse.dropWhile (· == '0')).reverse
  match kept with
  | [] => "0"
  | [digit] => String.ofList [digit, 'e'] ++ exponent
  | digit :: rest => String.ofList (digit :: '.' :: rest) ++ "e" ++ exponent

/-- The shortest digits that read back, a tie going to the even one, with a point or an exponent:
positional from `10 ^ -5` to below `10 ^ 16`. What is no finite number is `null`. -/
def realText (x : Binary64) : String :=
  let sign := if x.isNegative then "-" else ""
  match x.magnitude with
  | .nan | .infinite => "null"
  | .finite m e =>
    if m = 0 then sign ++ "0.0"
    else
      let (digits, scale) := Binary64.shortest .even m e
      let point := scale + (Nat.repr digits).length
      if -5 < point && point ≤ 16 then
        let text := Binary64.positional digits scale
        sign ++ text ++ if text.toList.contains '.' then "" else ".0"
      else sign ++ scientific digits scale

def objectText (indentation : Nat) (members : List (String × String)) : String :=
  let margin := "".pushn ' ' indentation
  let lines := members.map fun (name, value) => margin ++ "  \"" ++ name ++ "\": " ++ value
  "\x7b\n" ++ ",\n".intercalate lines ++ "\n" ++ margin ++ "\x7d"

end ReadCache.Json
