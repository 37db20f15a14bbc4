import Graphwright.Entries
import Graphwright.Json.Basic
import Graphwright.Request.StringLiteral

/-!
The values that are sent: arguments and the fields of input objects. A value has two forms, a
literal of the document and a JSON value; the name of an enum value is bare in the one and a string
in the other.
-/
namespace Graphwright

inductive InputValue
  | null
  | int (n : Int)
  | float (x : Binary64)
  | boolean (b : Bool)
  | string (s : String)
  /-- An enum value, by its name. -/
  | enum (name : String)
  | list (elements : List InputValue)
  | object (fields : List (String × InputValue))
  deriving Inhabited

/-- Values under names, in the order in which the names first came. -/
abbrev Arguments := List (String × InputValue)

namespace InputValue

mutual
/-- The value as a literal. -/
def text : InputValue → String
  | null => "null"
  | int n => toString n
  | float x => x.plainText
  | boolean b => if b then "true" else "false"
  | string s => StringLiteral.write s
  | enum name => name
  | list vs => "[" ++ ", ".intercalate (elementTexts vs) ++ "]"
  | object fs => "\x7b" ++ ", ".intercalate (fieldTexts fs) ++ "\x7d"

def elementTexts : List InputValue → List String
  | [] => []
  | v :: vs => text v :: elementTexts vs

def fieldTexts : List (String × InputValue) → List String
  | [] => []
  | (name, v) :: fs => (name ++ ": " ++ text v) :: fieldTexts fs
end

mutual
def toJson : InputValue → Json
  | null => .null
  | int n => .integer n
  | float x => .number (.float x)
  | boolean b => .bool b
  | string s => .string s
  | enum name => .string name
  | list vs => .array (elementsToJson vs)
  | object fs => .object (fieldsToJson fs)

def elementsToJson : List InputValue → List Json
  | [] => []
  | v :: vs => toJson v :: elementsToJson vs

def fieldsToJson : List (String × InputValue) → List (String × Json)
  | [] => []
  | (name, v) :: fs => (name, toJson v) :: fieldsToJson fs
end

/-- An integer of more than 64 bits with sign is taken as a double. -/
def ofNumber : Json.Number → InputValue
  | .integer n => if -Int.pow 2 63 ≤ n ∧ n < Int.pow 2 63 then int n else float (.ofInt n)
  | .float x => float x

mutual
/-- The value that is sent for a JSON value. -/
def ofJson : Json → InputValue
  | .null => null
  | .bool b => boolean b
  | .number n => ofNumber n
  | .string s => string s
  | .array es => list (ofElements es)
  | .object ms => object (ofMembers ms)

def ofElements : List Json → List InputValue
  | [] => []
  | e :: es => ofJson e :: ofElements es

/-- The fields for the members of an object. Members stand under distinct keys, so that none replaces
another where they are collected: see `ofList_ofMembers`. -/
def ofMembers : List (String × Json) → List (String × InputValue)
  | [] => []
  | (name, value) :: ms => (name, ofJson value) :: ofMembers ms
end

mutual
/-- Equality of values, in which doubles are equal as numbers and fields are compared in order. -/
def same : InputValue → InputValue → Bool
  | null, null => true
  | int m, int n => m = n
  | float x, float y => x.same y
  | boolean a, boolean b => a = b
  | string s, string t => s = t
  | enum a, enum b => a = b
  | list vs, list ws => sameElements vs ws
  | object fs, object gs => sameFields fs gs
  | _, _ => false

def sameElements : List InputValue → List InputValue → Bool
  | [], [] => true
  | v :: vs, w :: ws => same v w && sameElements vs ws
  | _, _ => false

def sameFields : List (String × InputValue) → List (String × InputValue) → Bool
  | [], [] => true
  | (a, v) :: fs, (b, w) :: gs => a = b && same v w && sameFields fs gs
  | _, _ => false
end

end InputValue

namespace Arguments

/-- Replaces the value under a name in place, or appends it. -/
def insert (arguments : Arguments) (name : String) (value : InputValue) : Arguments :=
  Entries.put name value arguments

/-- The arguments that a list names; of several under one name the last value counts. -/
def ofList (entries : List (String × InputValue)) : Arguments := Entries.collect entries

/-- The arguments behind the name of a field; nothing is written where there are none. -/
def text (arguments : Arguments) : String :=
  if arguments.isEmpty then ""
  else "(" ++ ", ".intercalate (InputValue.fieldTexts arguments) ++ ")"

end Arguments

end Graphwright
