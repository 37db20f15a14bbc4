import Graphwright.ClientError
import Graphwright.Failure
import Graphwright.Request.Selection

/-!
Requests of a single operation, and the document that is sent for one.
-/
namespace Graphwright

structure Request where
  kind : OperationKind
  /-- The root field. -/
  action : String
  arguments : Arguments
  selection : Option Selection

namespace Request

/-- A request, unless its selection is there and empty. -/
def of (kind : OperationKind) (action : String) (arguments : Arguments)
    (selection : Option Selection) : Except ClientError Request :=
  match selection with
  | some [] => .error (.emptySelection action)
  | selection => .ok ⟨kind, action, arguments, selection⟩

/-- The root field with what follows it. -/
def rootText (request : Request) : String :=
  request.action ++ request.arguments.text ++ match request.selection with
    | some selection => " " ++ selection.text
    | none => ""

def document (request : Request) : String :=
  request.kind.text ++ " \x7b " ++ request.rootText ++ " \x7d"

/-- What is sent. -/
def payload (request : Request) : Json := .object [("query", .string request.document)]

end Request

end Graphwright
