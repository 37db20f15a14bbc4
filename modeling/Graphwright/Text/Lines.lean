import Graphwright.Text.Blank
import Graphwright.Text.Split

/-!
The lines of a text: a line ends with LF or CR LF, and nothing after the last line end is no line.
-/
namespace Graphwright.Text

def dropLast (last : Char) (cs : List Char) : List Char :=
  if cs.getLast? = some last then cs.dropLast else cs

/-- The lines, given as the pieces between line feeds. -/
def linesOfPieces : List (List Char) → List (List Char)
  | [] => []
  | [last] => if last = [] then [] else [last]
  | piece :: pieces => dropLast '\r' piece :: linesOfPieces pieces

def lines (cs : List Char) : List (List Char) := linesOfPieces (splitWhere (· = '\n') cs)

end Graphwright.Text
