import Graphwright.Json.Basic
import Graphwright.Text.Quoted

/-!
What can go wrong while a client is used: before a request is sent, on the way, and when the
response is read.
-/
namespace Graphwright

/-- What a decoder reads. -/
inductive Expected
  | int32 | int64 | float64 | boolean | text | enumeration | object | list
  deriving DecidableEq, Repr

def Expected.label : Expected → String
  | int32 => "i32"
  | int64 => "i64"
  | float64 => "f64"
  | boolean => "bool"
  | text => "alloc::string::String"
  | enumeration => "an enum string"
  | object => "an object"
  | list => "a list"

/-- What of a JSON value is told when it is not the expected one. -/
inductive Found
  | null
  | boolean
  | number (n : Json.Number)
  | string (s : String)
  | list (size : Nat)
  | object
  deriving DecidableEq, Repr

namespace Found

def ofJson : Json → Found
  | .null => null
  | .bool _ => boolean
  | .number n => number n
  | .string s => string s
  | .array es => list es.length
  | .object _ => object

def label : Found → String
  | null => "null"
  | boolean => "a boolean"
  | number n => "number " ++ n.text
  | string s => "string " ++ Text.quoted s
  | list size => "a list of " ++ toString size ++ " items"
  | object => "an object"

end Found

inductive ClientError
  /-- A field was read that no response has set. -/
  | unhydrated (field : String)
  | missingField (field : String)
  | unexpectedValue (expected : Expected) (found : Found)
  | unknownEnumValue (enum value : String)
  /-- A custom scalar refused a value. -/
  | scalar (name reason : String)
  /-- An object was requested without any of its fields. -/
  | emptySelection (action : String)
  | transport (reason : String)
  deriving DecidableEq, Repr

def ClientError.message : ClientError → String
  | unhydrated field => "field `" ++ field ++ "` was read before it was hydrated"
  | missingField field => "response is missing field `" ++ field ++ "`"
  | unexpectedValue expected found => "expected " ++ expected.label ++ ", found " ++ found.label
  | unknownEnumValue enum value => "unknown value `" ++ value ++ "` for enum `" ++ enum ++ "`"
  | scalar name reason => "invalid value for scalar `" ++ name ++ "`: " ++ reason
  | emptySelection action =>
    "selection for `" ++ action ++ "` is empty; select at least one field"
  | transport reason => "transport error: " ++ reason

end Graphwright
