import Graphwright.Client.Enumeration
import Graphwright.Client.InputObject
import Graphwright.Client.OutputObject
import Graphwright.Client.Service

/-!
The items of a client, in the order in which they are emitted.
-/
namespace Graphwright.Client

/-- The kinds of generated item. -/
inductive Part
  | customScalar | enumeration | inputObject | interface | outputObject | selectionBuilder | service
  deriving DecidableEq, Repr

namespace Part

def all : List Part :=
  [customScalar, enumeration, inputObject, interface, outputObject, selectionBuilder, service]

def label : Part → String
  | customScalar => "custom scalar"
  | enumeration => "enum"
  | inputObject => "input type"
  | interface => "interface"
  | outputObject => "output type"
  | selectionBuilder => "field selection"
  | service => "service"

def models (r : Registry) : Part → Except Failure (List Code.Model)
  | customScalar => .ok (customScalars r)
  | enumeration => enumerations r
  | inputObject => inputObjects r
  | interface => interfaces r
  | outputObject => outputObjects r
  | selectionBuilder => selectionBuilders r
  | service => do return [← Client.service r]

end Part

/-- All items of the client for a registry. -/
def models (r : Registry) : Except Failure (List Code.Model) := do
  return (← Part.all.mapM (Part.models r)).flatten

end Graphwright.Client
