import Graphwright.Failure
import Graphwright.Files.Path

/-!
Generated files before they are written. Two files of one run never have the same path.
-/
namespace Graphwright

/-- A file at a path below the output directory, and what it was generated from. -/
structure GeneratedFile where
  path : String
  content : String
  origin : String
  deriving DecidableEq, Repr

namespace GeneratedFile

/-- Fails at the first file whose path is that of one in `seen`, or of one before it. -/
def checkAgainst (seen : List GeneratedFile) : List GeneratedFile → Except Failure Unit
  | [] => .ok ()
  | file :: files =>
    match seen.find? fun other => Path.parts other.path = Path.parts file.path with
    | some other => .error (.nameCollision file.path other.origin file.origin)
    | none => checkAgainst (file :: seen) files

/-- Fails at the first file whose path an earlier one has. -/
def checkCollisions (files : List GeneratedFile) : Except Failure Unit := checkAgainst [] files

end GeneratedFile

end Graphwright
