import Graphwright.Text.Quoted

/-!
String literals of a request document. Quotes, backslashes and control characters are escaped, all
else is written raw.
-/
namespace Graphwright.StringLiteral

/-- A control character without an escape of its own is given by four upper-case digits. -/
def escapeChar (c : Char) : List Char :=
  if c = '"' then ['\\', '"']
  else if c = '\\' then ['\\', '\\']
  else if c = '\n' then ['\\', 'n']
  else if c = '\r' then ['\\', 'r']
  else if c = '\t' then ['\\', 't']
  else if Text.isControl c then
    ['\\', 'u'] ++ (Text.paddedDigits 16 4 c.toNat).map Char.toUpper
  else [c]

def chars (cs : List Char) : List Char := '"' :: cs.flatMap escapeChar ++ ['"']

/-- The literal that stands for a text. -/
def write (s : String) : String := String.ofList (chars s.toList)

end Graphwright.StringLiteral
