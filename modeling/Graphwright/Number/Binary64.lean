/-!
Double-precision numbers, as exact values: `finite s m e` is `±m · 2^e` with the mantissa that the
format stores. Every operation is exact arithmetic followed by one rounding to the nearest value, a
tie going to the even mantissa. Main statement: a rounded quotient
is within half a unit of the exact one.
-/
namespace Graphwright

inductive Binary64
  | finite (negative : Bool) (mantissa : Nat) (exponent : Int)
  | infinite (negative : Bool)
  | nan
  deriving DecidableEq, Repr

namespace Binary64

def minExponent : Int := -1074

def maxExponent : Int := 971

def hiddenBit : Nat := Nat.pow 2 52

/-- The values that the format has: subnormal or with the hidden bit set. -/
def Stored : Binary64 → Prop
  | finite _ m e => e = minExponent ∧ m < 2 * hiddenBit
      ∨ minExponent ≤ e ∧ e ≤ maxExponent ∧ hiddenBit ≤ m ∧ m < 2 * hiddenBit
  | infinite _ => True
  | nan => True

/-- `num / den` to the nearest natural number, a half to the even one. -/
def roundDiv (num den : Nat) : Nat :=
  let q := num / den
  let r := num % den
  if 2 * r < den ∨ 2 * r = den ∧ q % 2 = 0 then q else q + 1

/-- `num / den · 2^-e` as a fraction. -/
def scaled (num den : Nat) (e : Int) : Nat × Nat :=
  if 0 ≤ e then (num, den * Nat.pow 2 e.toNat) else (num * Nat.pow 2 (-e).toNat, den)

/-- The exponent at which `num / den` has 53 bits before the point, or the least one. -/
def exponentOf (num den : Nat) : Int :=
  let guess : Int := (num.log2 : Int) - (den.log2 : Int) - 52
  let (n, d) := scaled num den guess
  max minExponent (if n < hiddenBit * d then guess - 1 else guess)

/-- `±num / den` rounded to the format. -/
def ofRatio (negative : Bool) (num den : Nat) : Binary64 :=
  let e := exponentOf num den
  let (n, d) := scaled num den e
  let m := roundDiv n d
  if m < 2 * hiddenBit then
    if e ≤ maxExponent then finite negative m e else infinite negative
  else if e < maxExponent then finite negative hiddenBit (e + 1) else infinite negative

def zero : Binary64 := finite false 0 minExponent

def ofNat (n : Nat) : Binary64 := ofRatio false n 1

def ofInt (n : Int) : Binary64 := ofRatio (n < 0) n.natAbs 1

def neg : Binary64 → Binary64
  | finite s m e => finite (!s) m e
  | infinite s => infinite (!s)
  | nan => nan

/-- `±digits · 10^exponent` rounded to the format. Exponents far outside its range are answered
without computing the power. -/
def ofDecimal (negative : Bool) (digits : Nat) (exponent : Int) : Binary64 :=
  if digits = 0 then finite negative 0 minExponent
  else if 310 < exponent then infinite negative
  else if exponent + (Nat.toDigits 10 digits).length < -330 then finite negative 0 minExponent
  else if 0 ≤ exponent then ofRatio negative (digits * Nat.pow 10 exponent.toNat) 1
  else ofRatio negative digits (Nat.pow 10 (-exponent).toNat)

/-- The value as a fraction, of a finite number. -/
def ratio? : Binary64 → Option (Bool × Nat × Nat)
  | finite s m e =>
    if 0 ≤ e then some (s, m * Nat.pow 2 e.toNat, 1) else some (s, m, Nat.pow 2 (-e).toNat)
  | _ => none

/-- The product with `10^k`, rounded once after the power itself has been rounded. -/
def timesPow10 (x : Binary64) (k : Nat) : Binary64 :=
  match x.ratio?, (ofDecimal false 1 k).ratio? with
  | some (s, n, d), some (_, n', d') => ofRatio s (n * n') (d * d')
  | _, _ => x

/-- The quotient by `10^k`, rounded once after the power itself has been rounded. -/
def overPow10 (x : Binary64) (k : Nat) : Binary64 :=
  match x.ratio?, (ofDecimal false 1 k).ratio? with
  | some (s, n, d), some (_, n', d') => ofRatio s (n * d') (d * n')
  | _, _ => x

/-- Equality of the numbers: the zeros are equal and nothing equals a NaN. -/
def same : Binary64 → Binary64 → Bool
  | finite s m e, finite s' m' e' => m = 0 && m' = 0 || s = s' && m = m' && e = e'
  | infinite s, infinite s' => s = s'
  | _, _ => false

/-- The rounded quotient is within half a unit of the exact one. -/
theorem roundDiv_near (num den : Nat) (h : 0 < den) :
    2 * num ≤ (2 * roundDiv num den + 1) * den ∧ (2 * roundDiv num den) * den ≤ 2 * num + den := by
  have hd : den * (num / den) + num % den = num := Nat.div_add_mod num den
  have hr : num % den < den := Nat.mod_lt num h
  simp only [roundDiv]
  split
  · constructor <;> grind
  · constructor <;> grind

end Binary64

end Graphwright
