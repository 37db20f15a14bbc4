import Graphwright.Number.Shortest

/-!
Two spellings of a double: plain digits without an exponent, and the spelling of JSON numbers.
-/
namespace Graphwright.Binary64

/-- The digits with the point among them; `whole` is written after a number without fraction. -/
def positional (ds : Digits) (whole : List Char) : List Char :=
  if ds.point ≤ 0 then
    ['0', '.'] ++ List.replicate (-ds.point).toNat '0' ++ ds.digits
  else
    let n := ds.point.toNat
    if ds.digits.length ≤ n then
      ds.digits ++ List.replicate (n - ds.digits.length) '0' ++ whole
    else ds.digits.take n ++ ['.'] ++ ds.digits.drop n

/-- One digit, the rest behind a point, and a signed exponent. -/
def scientific (ds : Digits) : List Char :=
  let e := ds.point - 1
  let rest := ds.digits.drop 1
  ds.digits.take 1 ++ (if rest = [] then [] else '.' :: rest)
    ++ ['e', if e < 0 then '-' else '+'] ++ Nat.toDigits 10 e.natAbs

def sign (negative : Bool) (cs : List Char) : List Char := if negative then '-' :: cs else cs

/-- Never an exponent, and no point in a whole number. -/
def plainText : Binary64 → String
  | finite s 0 _ => String.ofList (sign s ['0'])
  | finite s m e => String.ofList (sign s (positional (shortest .upper m e) []))
  | infinite s => String.ofList (sign s ['i', 'n', 'f'])
  | nan => "NaN"

/-- An exponent outside `10^-5 ≤ |x| < 10^16`, and a fraction or an exponent always. What is no
number is `null`. -/
def jsonText : Binary64 → String
  | finite s 0 _ => String.ofList (sign s ['0', '.', '0'])
  | finite s m e =>
    let ds := shortest .even m e
    String.ofList (sign s (if -4 ≤ ds.point ∧ ds.point ≤ 16 then positional ds ['.', '0']
      else scientific ds))
  | infinite _ => "null"
  | nan => "null"

end Graphwright.Binary64
