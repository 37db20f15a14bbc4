import Graphwright.Rust.ModuleIndex

/-!
The languages that a client can be generated in.
-/
namespace Graphwright

inductive Backend
  | rust
  deriving DecidableEq, Repr

namespace Backend

def name : Backend → String
  | rust => "rust"

/-- What ends the names of generated files. -/
def fileExtension : Backend → String
  | rust => "rs"

/-- The backend that a name stands for, whatever the case of its letters. -/
def ofName (name : String) : Except Failure Backend :=
  let lower := Text.lowercase name
  if lower = "rust" ∨ lower = "rs" then .ok rust else .error (.unknownBackend lower)

/-- The files of items, followed by the module indexes. -/
def render (home : Namespace) (items : List Code.Model) :
    Backend → Except Failure (List GeneratedFile)
  | rust => do
    let files ← items.mapM (Rust.render home)
    return files ++ (← Rust.renderModules home items)

end Backend

end Graphwright
