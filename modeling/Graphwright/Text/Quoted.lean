import Graphwright.Text.Printable

/-!
Double-quoted text in which every character that cannot be shown raw is escaped.
-/
namespace Graphwright.Text

/-- The digits of `n` in base `base`, at least one. -/
def digits (base n : Nat) : List Char := Nat.toDigits base n

/-- The digits of `n`, filled up with zeros to `width`. -/
def paddedDigits (base width n : Nat) : List Char :=
  let ds := digits base n
  List.replicate (width - ds.length) '0' ++ ds

/-- How a character is written between double quotes: a single quote stays raw, and a character
that is unprintable or joins the one before it is given by its number. -/
def escapeChar (c : Char) : List Char :=
  if c = '\x00' then ['\\', '0']
  else if c = '\t' then ['\\', 't']
  else if c = '\r' then ['\\', 'r']
  else if c = '\n' then ['\\', 'n']
  else if c = '\\' then ['\\', '\\']
  else if c = '"' then ['\\', '"']
  else if isPrintable c && !isGraphemeExtend c then [c]
  else ['\\', 'u', '\x7b'] ++ digits 16 c.toNat ++ ['\x7d']

def quoted (s : String) : String :=
  String.ofList ('"' :: s.toList.flatMap escapeChar ++ ['"'])

end Graphwright.Text
