import Graphwright.Response.Slot

/-!
Decoders of response values, which are put together as the type of a field is: one for what stands
innermost, and one for each list and nullable layer around it.
-/
namespace Graphwright

/-- A type of enum values, each of which has its own text. -/
class WireEnum (α : Type) where
  typeName : String
  /-- All values, in order of declaration. -/
  values : List α
  text : α → String

/-- The value with a text. -/
def WireEnum.ofText? {α : Type} [WireEnum α] (text : String) : Option α :=
  (WireEnum.values (α := α)).find? (WireEnum.text · = text)

/-- A type that is read and sent in its own way. -/
class CustomScalar (α : Type) where
  decode : Json → Except ClientError α
  toJson : α → Json

namespace Response

/-- Reads the value of a field. -/
abbrev Decoder (α : Type) := Json → Except ClientError α

def unexpected {α : Type} (expected : Expected) (value : Json) : Except ClientError α :=
  .error (.unexpectedValue expected (.ofJson value))

/-- Integers of `bits` bits with sign. -/
def integer (expected : Expected) (bits : Nat) : Decoder Int
  | .number (.integer n) =>
    if -Int.pow 2 (bits - 1) ≤ n ∧ n < Int.pow 2 (bits - 1) then .ok n
    else unexpected expected (.number (.integer n))
  | value => unexpected expected value

def int32 : Decoder Int := integer .int32 32

def int64 : Decoder Int := integer .int64 64

/-- Any number; an integer becomes the nearest double. -/
def float64 : Decoder Binary64
  | .number (.integer n) => .ok (.ofInt n)
  | .number (.float x) => .ok x
  | value => unexpected .float64 value

def boolean : Decoder Bool
  | .bool b => .ok b
  | value => unexpected .boolean value

def text : Decoder String
  | .string s => .ok s
  | value => unexpected .text value

def enumeration {α : Type} [WireEnum α] : Decoder α
  | .string s => match WireEnum.ofText? s with
    | some a => .ok a
    | none => .error (.unknownEnumValue (WireEnum.typeName α) s)
  | value => unexpected .enumeration value

/-- An object, by what reads its members. -/
def object {α : Type} (decode : List (String × Json) → Except ClientError α) : Decoder α
  | .object members => decode members
  | value => unexpected .object value

def customScalar {α : Type} [CustomScalar α] : Decoder α := CustomScalar.decode

/-- The values of a list; the first that cannot be read makes the error. -/
def list {α : Type} (decode : Decoder α) : Decoder (List α)
  | .array elements => elements.mapM decode
  | value => unexpected .list value

def nullable {α : Type} (decode : Decoder α) : Decoder (Option α)
  | .null => .ok none
  | value => some <$> decode value

/-- The value under a key, which may be missing. -/
def field {α : Type} (members : List (String × Json)) (key : String) (decode : Decoder α) :
    Except ClientError (Slot α) :=
  match Entries.get? key members with
  | some value => .set <$> decode value
  | none => .ok .unset

/-- The value under a key, which must be there. -/
def required {α : Type} (members : List (String × Json)) (key : String) (decode : Decoder α) :
    Except ClientError α :=
  match Entries.get? key members with
  | some value => decode value
  | none => .error (.missingField key)

end Response

end Graphwright
