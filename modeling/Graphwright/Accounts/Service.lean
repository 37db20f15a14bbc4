import Graphwright.Accounts.NewUser
import Graphwright.Accounts.User
import Graphwright.Accounts.UserSelection
import Graphwright.Response.Transport

/-!
The operations of the accounts service, over any transport.
-/
namespace Graphwright.Accounts

variable {m : Type → Type} [Monad m]

/-- Looks up one account. -/
def queryUser (send : Transport m) (selection : UserSelection) (id : String) :
    ExceptT ClientError m (Option User) :=
  send.ask .query "user" (.ofList [("id", .string id)]) (some selection.selection)
    (Response.nullable User.decode)

/-- All accounts, or the first ones. -/
def queryUsers (send : Transport m) (selection : UserSelection) (first : Option Int) :
    ExceptT ClientError m (List User) :=
  let arguments : Arguments := match first with
    | some n => .ofList [("first", .int n)]
    | none => []
  send.ask .query "users" arguments (some selection.selection) (Response.list User.decode)

def createUser (send : Transport m) (selection : UserSelection) (input : NewUser) :
    ExceptT ClientError m User :=
  send.ask .mutation "createUser" (.ofList [("input", input.toInput)]) (some selection.selection)
    User.decode

end Graphwright.Accounts
