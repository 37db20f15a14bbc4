import Graphwright.Number.Binary64

/-!
Doubles read from decimal text, rounded once.
-/
namespace Graphwright.Binary64

def digitsValue (cs : List Char) : Nat :=
  cs.foldl (fun n c => 10 * n + (c.toNat - '0'.toNat)) 0

/-- A sign, if there is one, and what follows it. -/
def readSign : List Char → Bool × List Char
  | '-' :: cs => (true, cs)
  | '+' :: cs => (false, cs)
  | cs => (false, cs)

/-- Nothing, or an exponent with its mark. -/
def exponentOfText? : List Char → Option Int
  | [] => some 0
  | c :: cs =>
    let (negative, ds) := readSign cs
    if (c = 'e' ∨ c = 'E') ∧ ds ≠ [] ∧ ds.all Char.isDigit then
      some (if negative then -(digitsValue ds : Int) else digitsValue ds)
    else none

/-- Digits with a point anywhere among them or none, and an exponent. -/
def unsignedOfText? (negative : Bool) (cs : List Char) : Option Binary64 := do
  let whole := cs.takeWhile Char.isDigit
  let (fraction, rest) := match cs.dropWhile Char.isDigit with
    | '.' :: rest => (rest.takeWhile Char.isDigit, rest.dropWhile Char.isDigit)
    | rest => ([], rest)
  if whole = [] ∧ fraction = [] then none
  let exponent ← exponentOfText? rest
  some (.ofDecimal negative (digitsValue (whole ++ fraction)) (exponent - fraction.length))

/-- The double that a text writes; the names of what is no number may be in either case. -/
def ofText? (text : String) : Option Binary64 :=
  let (negative, cs) := readSign text.toList
  let name := String.ofList (cs.map Char.toLower)
  if name = "nan" then some nan
  else if name = "inf" ∨ name = "infinity" then some (infinite negative)
  else unsignedOfText? negative cs

end Graphwright.Binary64
