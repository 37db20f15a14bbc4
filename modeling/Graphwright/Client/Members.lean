import Graphwright.Entries
import Graphwright.Failure

/-!
Names claimed within one scope of a generated item. Main statement: a claim adds a name that the scope
did not have.
-/
namespace Graphwright.Client

/-- A scope and its names, each with what claimed it. -/
structure Members where
  owner : String
  claimed : List (String × String)

namespace Members

def of (owner : String) : Members := ⟨owner, []⟩

/-- A scope in which some names are taken from the start. -/
def withReserved (owner : String) (reserved : List (String × String)) : Members := ⟨owner, reserved⟩

def claim (m : Members) (name claimant : String) : Except Failure Members :=
  match Entries.get? name m.claimed with
  | some first => .error (.nameCollision (m.owner ++ "::" ++ name) first claimant)
  | none => .ok { m with claimed := m.claimed ++ [(name, claimant)] }

def names (m : Members) : List String := Entries.names m.claimed

theorem names_of_claim {m m' : Members} {name claimant : String}
    (h : m.claim name claimant = .ok m') : m'.names = m.names ++ [name] ∧ name ∉ m.names := by
  unfold claim at h
  split at h
  · cases h
  · rename_i hn
    cases h
    exact ⟨by simp [names, Entries.names], Entries.get?_eq_none_iff.mp hn⟩

end Members

end Graphwright.Client
