import Graphwright.Accounts.Role

/-!
Accounts to be created. What is not given is not sent.
-/
namespace Graphwright.Accounts

structure NewUser where
  fields : Arguments

namespace NewUser

/-- With a role, or unchanged. -/
def withRole (user : NewUser) : Option Role → NewUser
  | some role => ⟨user.fields.insert "role" role.toInput⟩
  | none => user

/-- With a tag to start with, or unchanged. -/
def withTag (user : NewUser) : Option String → NewUser
  | some tag => ⟨user.fields.insert "tag" (.string tag)⟩
  | none => user

def of (name : String) (role : Option Role) (tag : Option String) : NewUser :=
  ((NewUser.mk (.ofList [("name", .string name)])).withRole role).withTag tag

def toInput (user : NewUser) : InputValue := .object user.fields

end NewUser

end Graphwright.Accounts
