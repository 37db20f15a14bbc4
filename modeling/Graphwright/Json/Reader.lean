import Graphwright.Json.Basic
import Graphwright.Text.CodePoints

/-!
Reading JSON text. Objects come out sorted by name, the last of equal names counting. A number
without fraction and exponent that fits 64 bits is an integer. A double is read from its first 64
bits of digits, scaled by powers of ten up to `10^308`, each step rounded.
-/
namespace Graphwright.Json

abbrev Reader (α : Type) := List Char → Option (α × List Char)

def isBlank (c : Char) : Bool := c = ' ' || c = '\n' || c = '\r' || c = '\t'

def skipBlank (cs : List Char) : List Char := cs.dropWhile isBlank

def digitValue (c : Char) : Nat := c.toNat - '0'.toNat

/-- Reads digits into `significand` while it fits 64 bits, and counts them. -/
def accumulate (significand count : Nat) : List Char → Nat × Nat
  | [] => (significand, count)
  | c :: cs =>
    let next := significand * 10 + digitValue c
    if next < Nat.pow 2 64 then accumulate next (count + 1) cs else (significand, count)

/-- The number `x · 10^exponent`, if it is finite. Powers below `10^-308` are taken in steps. -/
def scale? (x : Binary64) (exponent : Int) : Option Binary64 :=
  if exponent.natAbs ≤ 308 then
    if exponent < 0 then some (x.overPow10 exponent.natAbs)
    else match x.timesPow10 exponent.natAbs with
      | .infinite _ => none
      | y => some y
  else if x.same .zero then some x
  else if 0 < exponent then none
  else scale? (x.overPow10 308) (exponent + 308)
  termination_by exponent.natAbs
  decreasing_by omega

def float? (negative : Bool) (significand : Nat) (exponent : Int) : Option Number :=
  (scale? (.ofNat significand) exponent).map fun x => .float (if negative then x.neg else x)

/-- The exponent part: nothing, or `e`, a sign and digits. -/
def readExponent : Reader (Option Int)
  | c :: cs =>
    if c = 'e' ∨ c = 'E' then
      let (negative, ds) := match cs with
        | '+' :: ds => (false, ds)
        | '-' :: ds => (true, ds)
        | ds => (false, ds)
      let run := ds.takeWhile Char.isDigit
      let size : Int := (run.foldl (fun n d => 10 * n + digitValue d) 0 : Nat)
      if run = [] then none
      else some (some (if negative then -size else size), ds.dropWhile Char.isDigit)
    else some (none, c :: cs)
  | [] => some (none, [])

/-- A number whose digits before the point are `whole`. -/
def readNumberFrom (negative : Bool) (whole : List Char) : Reader Number := fun cs => do
  let (significand, taken) := accumulate 0 0 whole
  let dropped : Int := whole.length - taken
  match cs with
  | '.' :: rest =>
    let fraction := rest.takeWhile Char.isDigit
    if fraction = [] then none
    let (significand, taken) := accumulate significand 0 fraction
    let (exponent, rest) ← readExponent (rest.dropWhile Char.isDigit)
    let x ← float? negative significand (dropped - taken + exponent.getD 0)
    some (x, rest)
  | _ =>
    let (exponent, rest) ← readExponent cs
    if exponent = none ∧ dropped = 0
        ∧ (!negative ∨ 0 < significand ∧ significand ≤ Nat.pow 2 63) then
      some (.integer (if negative then -significand else significand), rest)
    else
      let x ← float? negative significand (dropped + exponent.getD 0)
      some (x, rest)

def readNumber : Reader Number := fun cs => do
  let (negative, cs) := match cs with
    | '-' :: rest => (true, rest)
    | rest => (false, rest)
  let whole := cs.takeWhile Char.isDigit
  let rest := cs.dropWhile Char.isDigit
  match whole with
  | [] => none
  | '0' :: _ :: _ => none
  | _ => readNumberFrom negative whole rest

/-- Four hexadecimal digits. -/
def readUnit : Reader Nat
  | a :: b :: c :: d :: rest => do
    let a ← Text.hexDigit? a
    let b ← Text.hexDigit? b
    let c ← Text.hexDigit? c
    let d ← Text.hexDigit? d
    some (((a * 16 + b) * 16 + c) * 16 + d, rest)
  | _ => none

/-- The character after a backslash. Two units that form a surrogate pair are one character. -/
def readEscape : Reader Char
  | '"' :: cs => some ('"', cs)
  | '\\' :: cs => some ('\\', cs)
  | '/' :: cs => some ('/', cs)
  | 'b' :: cs => some ('\x08', cs)
  | 'f' :: cs => some ('\x0c', cs)
  | 'n' :: cs => some ('\n', cs)
  | 'r' :: cs => some ('\r', cs)
  | 't' :: cs => some ('\t', cs)
  | 'u' :: cs => do
    let (high, cs) ← readUnit cs
    if 0xd800 ≤ high ∧ high < 0xdc00 then
      match cs with
      | '\\' :: 'u' :: cs =>
        let (low, cs) ← readUnit cs
        if 0xdc00 ≤ low ∧ low < 0xe000 then
          some (Char.ofNat (0x10000 + (high - 0xd800) * 0x400 + (low - 0xdc00)), cs)
        else none
      | _ => none
    else if 0xdc00 ≤ high ∧ high < 0xe000 then none
    else some (Char.ofNat high, cs)
  | _ => none

/-- The rest of a string after its opening quote; `read` holds what came before, last first. -/
def readString : Nat → List Char → Reader String
  | 0, _, _ => none
  | _ + 1, _, [] => none
  | _ + 1, read, '"' :: cs => some (String.ofList read.reverse, cs)
  | fuel + 1, read, '\\' :: cs => do
    let (c, cs) ← readEscape cs
    readString fuel (c :: read) cs
  | fuel + 1, read, c :: cs => if c.toNat < 32 then none else readString fuel (c :: read) cs

mutual
/-- A value and the text after it. -/
def readValue : Nat → Reader Json
  | 0, _ => none
  | fuel + 1, cs =>
    match skipBlank cs with
    | 'n' :: 'u' :: 'l' :: 'l' :: cs => some (null, cs)
    | 't' :: 'r' :: 'u' :: 'e' :: cs => some (bool true, cs)
    | 'f' :: 'a' :: 'l' :: 's' :: 'e' :: cs => some (bool false, cs)
    | '"' :: cs => (readString fuel [] cs).map fun (s, cs) => (string s, cs)
    | '[' :: cs => match skipBlank cs with
      | ']' :: cs => some (array [], cs)
      | cs => (readElements fuel cs).map fun (es, cs) => (array es, cs)
    | '\x7b' :: cs => match skipBlank cs with
      | '\x7d' :: cs => some (object [], cs)
      | cs => (readMembers fuel cs).map fun (ms, cs) => (object (Entries.sorted ms), cs)
    | cs => (readNumber cs).map fun (n, cs) => (number n, cs)

/-- One or more elements and the closing bracket. -/
def readElements : Nat → Reader (List Json)
  | 0, _ => none
  | fuel + 1, cs => do
    let (e, cs) ← readValue fuel cs
    match skipBlank cs with
    | ',' :: cs => (readElements fuel cs).map fun (es, cs) => (e :: es, cs)
    | ']' :: cs => some ([e], cs)
    | _ => none

/-- One or more members and the closing brace. -/
def readMembers : Nat → Reader (List (String × Json))
  | 0, _ => none
  | fuel + 1, cs =>
    match skipBlank cs with
    | '"' :: cs => do
      let (name, cs) ← readString fuel [] cs
      match skipBlank cs with
      | ':' :: cs =>
        let (value, cs) ← readValue fuel cs
        match skipBlank cs with
        | ',' :: cs => (readMembers fuel cs).map fun (ms, cs) => ((name, value) :: ms, cs)
        | '\x7d' :: cs => some ([(name, value)], cs)
        | _ => none
      | _ => none
    | _ => none
end

/-- The value that a text holds. A value of `n` characters nests less than `2n` deep in these
readers, which bounds the recursion. -/
def ofText? (text : String) : Option Json :=
  match readValue (2 * text.length + 2) text.toList with
  | some (value, rest) => if skipBlank rest = [] then some value else none
  | none => none

end Graphwright.Json
