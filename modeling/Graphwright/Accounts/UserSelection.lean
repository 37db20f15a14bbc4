import Graphwright.Request.Selection

/-!
Which fields of an account a response is to hold.
-/
namespace Graphwright.Accounts

structure UserSelection where
  selection : Selection
  deriving Inhabited

namespace UserSelection

def empty : UserSelection := ⟨[]⟩

def withId (s : UserSelection) : UserSelection := ⟨s.selection.select "id" [] none⟩

def withName (s : UserSelection) : UserSelection := ⟨s.selection.select "name" [] none⟩

def withRole (s : UserSelection) : UserSelection := ⟨s.selection.select "role" [] none⟩

def withTags (s : UserSelection) : UserSelection := ⟨s.selection.select "tags" [] none⟩

/-- With the manager, of whom the given fields are selected. -/
def withManager (s manager : UserSelection) : UserSelection :=
  ⟨s.selection.select "manager" [] (some manager.selection)⟩

end UserSelection

end Graphwright.Accounts
