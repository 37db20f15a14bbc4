import Graphwright.ClientError

/-!
Slots for the fields of an output object. A slot that no response has set differs from one that was
set to an absent value.
-/
namespace Graphwright

inductive Slot (α : Type)
  | unset
  | set (value : α)
  deriving DecidableEq, Repr

namespace Slot

variable {α : Type}

/-- The value, which must have been set, of the field that the error is to name. -/
def get (field : String) : Slot α → Except ClientError α
  | set value => .ok value
  | unset => .error (.unhydrated field)

def isSet : Slot α → Bool
  | set _ => true
  | unset => false

def toOption : Slot α → Option α
  | set value => some value
  | unset => none

end Slot

end Graphwright
