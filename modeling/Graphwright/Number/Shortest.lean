import Graphwright.Number.Binary64

/-!
The fewest decimal digits that read back as a given double, and of those the nearest to it. For
1, 2, … digits the two neighbours of the value on that decimal grid are tested; the first grid with
a hit wins, and of two hits the nearer one.
-/
namespace Graphwright.Binary64

/-- The number whose digits, read as `0.d₁d₂… · 10^point`, are wanted. -/
structure Digits where
  digits : List Char
  point : Int
  deriving DecidableEq, Repr

/-- The least `p` with `num / den < 10^p`, for a positive fraction: the count of digits before the
point, or minus the count of zeros after it. -/
def pointOf (num den : Nat) : Int :=
  if den ≤ num then (Nat.toDigits 10 (num / den)).length
  else match (List.range 400).find? fun z => den ≤ num * Nat.pow 10 (z + 1) with
    | some z => -(z : Int)
    | none => -400

/-- The fraction `num / den` in units of `10^e`. -/
def inUnits (num den : Nat) (e : Int) : Nat × Nat :=
  if 0 ≤ e then (num, den * Nat.pow 10 e.toNat) else (num * Nat.pow 10 (-e).toNat, den)

/-- What rounds to a double: the fractions between `lo` and `hi` over `den`, ends included iff the
mantissa is even. -/
structure Interval where
  lo : Nat
  value : Nat
  hi : Nat
  den : Nat
  closed : Bool

def Interval.of (mantissa : Nat) (exponent : Int) : Interval :=
  let below := if mantissa = hiddenBit ∧ minExponent < exponent then 1 else 2
  let (num, den) :=
    if 0 ≤ exponent then (Nat.pow 2 exponent.toNat, 4) else (1, 4 * Nat.pow 2 (-exponent).toNat)
  ⟨(4 * mantissa - below) * num, 4 * mantissa * num, (4 * mantissa + 2) * num, den,
    mantissa % 2 = 0⟩

/-- Whether `k` units of `10^e` lie in the interval. -/
def Interval.holds (i : Interval) (e : Int) (k : Nat) : Bool :=
  let (lo, den) := inUnits i.lo i.den e
  let (hi, _) := inUnits i.hi i.den e
  let n := k * den
  if i.closed then lo ≤ n && n ≤ hi else lo < n && n < hi

/-- Which of two equally near neighbours is taken. -/
inductive Tie
  | upper | even
  deriving DecidableEq, Repr

/-- Whether the lower neighbour `low` is taken of the fraction `low + r / d`. -/
def Tie.takesLow (tie : Tie) (low r d : Nat) : Bool :=
  2 * r < d || 2 * r = d && tie = even && low % 2 = 0

/-- The nearest neighbour of the value on the grid of `10^e` that lies in the interval. -/
def Interval.onGrid? (tie : Tie) (i : Interval) (e : Int) : Option Nat :=
  let (n, d) := inUnits i.value i.den e
  let low := n / d
  match i.holds e low, i.holds e (low + 1) with
  | true, true => some (if tie.takesLow low (n % d) d then low else low + 1)
  | true, false => some low
  | false, true => some (low + 1)
  | false, false => none

def dropZeros (ds : List Char) : List Char := (ds.reverse.dropWhile (· = '0')).reverse

/-- The digits of a positive double. -/
def shortest (tie : Tie) (mantissa : Nat) (exponent : Int) : Digits :=
  let i := Interval.of mantissa exponent
  let point := pointOf i.value i.den
  match (List.range 17).findSome? fun k : Nat =>
      (i.onGrid? tie (point - (k + 1 : Nat))).map fun n => (n, point - (k + 1 : Nat)) with
  | some (n, e) =>
    let ds := Nat.toDigits 10 n
    ⟨dropZeros ds, e + ds.length⟩
  | none => ⟨['0'], 1⟩

end Graphwright.Binary64
