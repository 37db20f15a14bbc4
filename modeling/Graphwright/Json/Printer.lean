import Graphwright.Json.Basic
import Graphwright.Text.Quoted

/-!
Compact JSON text, and the notation that shows a value's constructors.
-/
namespace Graphwright.Json

/-- Only quotes, backslashes and the control characters of ASCII below the space are escaped. -/
def escapeChar (c : Char) : List Char :=
  if c = '"' then ['\\', '"']
  else if c = '\\' then ['\\', '\\']
  else if c = '\n' then ['\\', 'n']
  else if c = '\r' then ['\\', 'r']
  else if c = '\t' then ['\\', 't']
  else if c = '\x08' then ['\\', 'b']
  else if c = '\x0c' then ['\\', 'f']
  else if c.toNat < 32 then ['\\', 'u'] ++ Text.paddedDigits 16 4 c.toNat
  else [c]

def quoted (s : String) : String := String.ofList ('"' :: s.toList.flatMap escapeChar ++ ['"'])

mutual
def print : Json → String
  | null => "null"
  | bool b => if b then "true" else "false"
  | number n => n.text
  | string s => quoted s
  | array es => "[" ++ ",".intercalate (printElements es) ++ "]"
  | object ms => "\x7b" ++ ",".intercalate (printMembers ms) ++ "\x7d"

def printElements : List Json → List String
  | [] => []
  | e :: es => print e :: printElements es

def printMembers : List (String × Json) → List String
  | [] => []
  | (name, value) :: ms => (quoted name ++ ":" ++ print value) :: printMembers ms
end

mutual
/-- The value with the names of its constructors: `Array [Number(1), Null]`. -/
def describe : Json → String
  | null => "Null"
  | bool b => if b then "Bool(true)" else "Bool(false)"
  | number n => "Number(" ++ n.text ++ ")"
  | string s => "String(" ++ Text.quoted s ++ ")"
  | array es => "Array [" ++ ", ".intercalate (describeElements es) ++ "]"
  | object ms => "Object \x7b" ++ ", ".intercalate (describeMembers ms) ++ "\x7d"

def describeElements : List Json → List String
  | [] => []
  | e :: es => describe e :: describeElements es

def describeMembers : List (String × Json) → List String
  | [] => []
  | (name, value) :: ms => (Text.quoted name ++ ": " ++ describe value) :: describeMembers ms
end

end Graphwright.Json
