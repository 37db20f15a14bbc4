import Graphwright.Entries
import Graphwright.Number.Notation

/-!
JSON values. Integers are kept apart from doubles, and an object keeps the order of its members.
-/
namespace Graphwright

inductive Json.Number
  | integer (value : Int)
  | float (value : Binary64)
  deriving DecidableEq, Repr

inductive Json
  | null
  | bool (value : Bool)
  | number (value : Json.Number)
  | string (value : String)
  | array (elements : List Json)
  | object (members : List (String × Json))
  deriving Inhabited

namespace Json

def integer (n : Int) : Json := number (.integer n)

/-- Integers compare as integers, doubles as numbers, and the two kinds differ. -/
def Number.same : Number → Number → Bool
  | .integer a, .integer b => a = b
  | .float a, .float b => a.same b
  | _, _ => false

def Number.text : Number → String
  | .integer n => toString n
  | .float x => x.jsonText

mutual
/-- Equality of values, member by member in order. -/
def same : Json → Json → Bool
  | null, null => true
  | bool a, bool b => a = b
  | number a, number b => a.same b
  | string a, string b => a = b
  | array as, array bs => sameElements as bs
  | object as, object bs => sameMembers as bs
  | _, _ => false

def sameElements : List Json → List Json → Bool
  | [], [] => true
  | a :: as, b :: bs => same a b && sameElements as bs
  | _, _ => false

def sameMembers : List (String × Json) → List (String × Json) → Bool
  | [], [] => true
  | (k, a) :: as, (l, b) :: bs => k = l && same a b && sameMembers as bs
  | _, _ => false
end

/-- The member of an object. -/
def member? (name : String) : Json → Option Json
  | object members => Entries.get? name members
  | _ => none

end Json

end Graphwright
