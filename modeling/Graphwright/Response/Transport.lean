import Graphwright.Request.Basic
import Graphwright.Response.Decode

/-!
The way to a server and back. A transport takes a request and gives the members of the response, or
fails.
-/
namespace Graphwright

abbrev Transport (m : Type → Type) := Request → ExceptT ClientError m (List (String × Json))

/-- Asks for a root field and reads its value from the response. A request with an empty selection
is not sent. -/
def Transport.ask {m : Type → Type} [Monad m] {α : Type} (send : Transport m) (kind : OperationKind)
    (action : String) (arguments : Arguments) (selection : Option Selection)
    (decode : Response.Decoder α) : ExceptT ClientError m α := do
  let request ← liftExcept (Request.of kind action arguments selection)
  let members ← send request
  liftExcept (Response.required members action decode)

end Graphwright
