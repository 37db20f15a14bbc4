import Graphwright.Text.Split

/-!
Sets of characters and character maps, read from tables of hexadecimal ranges. A set is written
`41-5a aa`; a map `e0-f6:c0 101-12f/2:100`, where `/2` takes every second code point and `:c0` is
what the first one goes to.
-/
namespace Graphwright.Text

def hexDigit? (c : Char) : Option Nat :=
  if '0' ≤ c ∧ c ≤ '9' then some (c.toNat - '0'.toNat)
  else if 'a' ≤ c ∧ c ≤ 'f' then some (c.toNat - 'a'.toNat + 10)
  else if 'A' ≤ c ∧ c ≤ 'F' then some (c.toNat - 'A'.toNat + 10)
  else none

/-- The number written in hexadecimal; characters that are no digit are passed over. -/
def hexValue (cs : List Char) : Nat :=
  cs.foldl (fun n c => match hexDigit? c with | some d => 16 * n + d | none => n) 0

/-- The blank-separated words of a table. -/
def tableWords (table : String) : List (List Char) :=
  (splitWhere (fun c => c = ' ' || c = '\n') table.toList).filter (· ≠ [])

/-- Inclusive ranges of code points. -/
structure CodePoints where
  ranges : List (Nat × Nat)

namespace CodePoints

def contains (s : CodePoints) (c : Char) : Bool :=
  s.ranges.any fun (lo, hi) => lo ≤ c.toNat && c.toNat ≤ hi

def ofTable (table : String) : CodePoints where
  ranges := (tableWords table).map fun word =>
    match splitFirst? '-' word with
    | some (lo, hi) => (hexValue lo, hexValue hi)
    | none => (hexValue word, hexValue word)

end CodePoints

/-- The code points `lo`, `lo + step`, … up to `hi` go to `target`, `target + step`, …. -/
structure Shift where
  lo : Nat
  hi : Nat
  step : Nat
  target : Nat

namespace Shift

def image? (s : Shift) (c : Char) : Option Char :=
  if s.lo ≤ c.toNat ∧ c.toNat ≤ s.hi ∧ (c.toNat - s.lo) % s.step = 0 then
    some (Char.ofNat (s.target + (c.toNat - s.lo)))
  else none

def ofWord (word : List Char) : Shift :=
  let (domain, target) := (splitFirst? ':' word).getD (word, [])
  let (range, step) := (splitFirst? '/' domain).getD (domain, ['1'])
  let (lo, hi) := (splitFirst? '-' range).getD (range, range)
  ⟨hexValue lo, hexValue hi, hexValue step, hexValue target⟩

end Shift

/-- A character map: runs of shifts, and characters that go to several. -/
structure CharMap where
  shifts : List Shift
  several : List (Char × List Char)

namespace CharMap

/-- A character that the map does not name stays as it is. -/
def apply (m : CharMap) (c : Char) : List Char :=
  match m.several.lookup c with
  | some cs => cs
  | none => match m.shifts.findSome? (·.image? c) with
    | some d => [d]
    | none => [c]

def ofTables (shifts several : String) : CharMap where
  shifts := (tableWords shifts).map Shift.ofWord
  several := (tableWords several).map fun word =>
    let (c, cs) := (splitFirst? ':' word).getD (word, [])
    (Char.ofNat (hexValue c), (splitWhere (· = '.') cs).map fun d => Char.ofNat (hexValue d))

end CharMap

end Graphwright.Text
