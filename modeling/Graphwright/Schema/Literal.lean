import Graphwright.Entries
import Graphwright.Number.Notation
import Graphwright.Text.Lines
import Graphwright.Text.Quoted

/-!
Literals of schema documents and the text in which a default value is kept.
-/
namespace Graphwright.Schema

inductive Literal
  | int (value : Int)
  | float (value : Binary64)
  | string (value : String)
  | bool (value : Bool)
  | null
  | enum (name : String)
  | var (name : String)
  | list (elements : List Literal)
  | object (members : List (String × Literal))

namespace Literal

/-- A text of several lines without characters that a block cannot hold. -/
def isBlock (cs : List Char) : Bool :=
  cs.contains '\n' && cs.all fun c =>
    c = '\n' || c = '\r' || c = '\t' || ' ' ≤ c && c.toNat ≤ 0xffff

/-- Inside a block only three quotes in a row are escaped. -/
def escapeBlock : List Char → List Char
  | '"' :: '"' :: '"' :: cs => ['\\', '"', '"', '"'] ++ escapeBlock cs
  | c :: cs => c :: escapeBlock cs
  | [] => []

/-- The lines between triple quotes, each indented unless it is blank. -/
def blockText (cs : List Char) : List Char :=
  let line (l : List Char) : List Char :=
    if l.all Text.isBlank then ['\n'] else [' ', ' '] ++ escapeBlock l ++ ['\n']
  ['"', '"', '"', '\n'] ++ (Text.lines cs).flatMap line ++ ['"', '"', '"']

/-- A character outside U+0020–U+FFFF is given by its decimal number, at least four digits. -/
def escapeChar (c : Char) : List Char :=
  if c = '\r' then ['\\', 'r']
  else if c = '\n' then ['\\', 'n']
  else if c = '\t' then ['\\', 't']
  else if c = '"' then ['\\', '"']
  else if c = '\\' then ['\\', '\\']
  else if ' ' ≤ c ∧ c.toNat ≤ 0xffff then [c]
  else ['\\', 'u'] ++ Text.paddedDigits 10 4 c.toNat

def stringText (s : String) : String :=
  let cs := s.toList
  String.ofList (if isBlock cs then blockText cs else '"' :: cs.flatMap escapeChar ++ ['"'])

mutual
def text : Literal → String
  | int n => toString n
  | float x => x.plainText
  | string s => stringText s
  | bool b => if b then "true" else "false"
  | null => "null"
  | enum name => name
  | var name => "$" ++ name
  | list es => "[" ++ ", ".intercalate (elementTexts es) ++ "]"
  | object ms => "\x7b" ++ ", ".intercalate (memberTexts ms) ++ "\x7d"

def elementTexts : List Literal → List String
  | [] => []
  | e :: es => text e :: elementTexts es

def memberTexts : List (String × Literal) → List String
  | [] => []
  | (name, value) :: ms => (name ++ ": " ++ text value) :: memberTexts ms
end

end Literal

end Graphwright.Schema
