import Graphwright.Request.InputValue
import Graphwright.Response.Decode

/-!
The access levels of accounts.
-/
namespace Graphwright.Accounts

inductive Role
  /-- Can manage other accounts. -/
  | admin
  | member
  deriving DecidableEq, Repr

instance : WireEnum Role where
  typeName := "Role"
  values := [.admin, .member]
  text
    | .admin => "ADMIN"
    | .member => "MEMBER"

def Role.toInput (role : Role) : InputValue := .enum (WireEnum.text role)

end Graphwright.Accounts
