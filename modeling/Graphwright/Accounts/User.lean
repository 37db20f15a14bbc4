import Graphwright.Accounts.Role

/-!
Accounts as they come in a response. A field that was not in it stays unset; one of the wrong shape
makes the whole account unreadable. Main statement: an account is read field by field, the manager
as an account in turn.
-/
namespace Graphwright.Accounts

structure User where
  id : Slot String
  name : Slot (Option String)
  role : Slot Role
  tags : Slot (List String)
  /-- Whom the user reports to. -/
  manager : Slot (Option User)

namespace User

/-! ## Reading the fields -/

def getId (user : User) : Except ClientError String := user.id.get "id"

def getName (user : User) : Except ClientError (Option String) := user.name.get "name"

def getRole (user : User) : Except ClientError Role := user.role.get "role"

def getTags (user : User) : Except ClientError (List String) := user.tags.get "tags"

def getManager (user : User) : Except ClientError (Option User) := user.manager.get "manager"

/-! ## Reading a response -/

theorem sizeOf_get? {key : String} {value : Json} {members : List (String × Json)}
    (h : Entries.get? key members = some value) : sizeOf value < sizeOf members := by
  have h := List.sizeOf_lt_of_mem (Entries.mem_of_get? h)
  simp only [Prod.mk.sizeOf_spec] at h
  omega

/-- The account that the members of an object describe. -/
def ofMembers (members : List (String × Json)) : Except ClientError User := do
  let id ← Response.field members "id" Response.text
  let name ← Response.field members "name" (Response.nullable Response.text)
  let role ← Response.field members "role" Response.enumeration
  let tags ← Response.field members "tags" (Response.list Response.text)
  let manager ← match _h : Entries.get? "manager" members with
    | none => .ok .unset
    | some .null => .ok (.set none)
    | some (.object inner) => (.set ∘ some) <$> ofMembers inner
    | some value => Response.unexpected .object value
  return ⟨id, name, role, tags, manager⟩
  termination_by sizeOf members
  decreasing_by
    have h := sizeOf_get? _h
    simp only [Json.object.sizeOf_spec] at h
    omega

def decode : Response.Decoder User := Response.object ofMembers

/-- The manager is read as an account in turn. -/
theorem ofMembers_eq (members : List (String × Json)) :
    ofMembers members = (do
      let id ← Response.field members "id" Response.text
      let name ← Response.field members "name" (Response.nullable Response.text)
      let role ← Response.field members "role" Response.enumeration
      let tags ← Response.field members "tags" (Response.list Response.text)
      let manager ← Response.field members "manager" (Response.nullable decode)
      return ⟨id, name, role, tags, manager⟩) := by
  rw [ofMembers]
  congr 1; funext id; congr 1; funext name; congr 1; funext role; congr 1; funext tags
  simp only [Response.field]
  split <;> rename_i hg <;> simp only [hg, Response.nullable, decode, Response.object]
  · rfl
  · cases ofMembers _ <;> rfl
  · rfl

/-! ## Equality -/

mutual
/-- Equality of accounts, slot by slot. -/
def same : User → User → Bool
  | ⟨i, n, r, t, m⟩, ⟨i', n', r', t', m'⟩ =>
    i = i' && n = n' && r = r' && t = t' && sameManager m m'

def sameManager : Slot (Option User) → Slot (Option User) → Bool
  | .unset, .unset => true
  | .set none, .set none => true
  | .set (some a), .set (some b) => same a b
  | _, _ => false
end

end User

end Graphwright.Accounts
