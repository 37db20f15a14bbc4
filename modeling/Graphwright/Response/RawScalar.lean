import Graphwright.Json.Printer
import Graphwright.Request.InputValue
import Graphwright.Response.Decode

/-!
Custom scalars of which nothing is known but the name: they are kept as they came.
-/
namespace Graphwright

structure RawScalar (name : String) where
  raw : Json

namespace RawScalar

variable {name : String}

instance : CustomScalar (RawScalar name) where
  decode value := .ok ⟨value⟩
  toJson scalar := scalar.raw

def toInput (scalar : RawScalar name) : InputValue := .ofJson scalar.raw

def same (a b : RawScalar name) : Bool := a.raw.same b.raw

/-- The name with the constructors of the value. -/
def describe (scalar : RawScalar name) : String := name ++ "(" ++ scalar.raw.describe ++ ")"

end RawScalar

end Graphwright
