import Graphwright.Files.Generated
import Graphwright.Files.Tree

/-!
Writing generated files, all or none: if one cannot be written, those written before it are given
back what they held.
-/
namespace Graphwright

/-- Where files are kept. What a file held, before it is written, is a `Content`. -/
class FileStore (m : Type → Type) (Content : outParam Type) where
  /-- Whether a path leads to anything. -/
  contains : String → m Bool
  /-- The text of the file at a path, if it can be read. -/
  read? : String → m (Option String)
  /-- Writes a file and makes the directories it needs. If all went well, what the file held before
  is given, or that it was not there. -/
  write? : String → String → m (Option (Option Content))
  /-- Gives a file back what it held, or removes it if it was not there. -/
  restore : String → Option Content → m Unit

instance : FileStore (StateM Tree) String where
  contains path := do return (← get).contains path
  read? path := do return (← get).read? path
  write? path content := modifyGet fun tree => (tree.write path content).swap
  restore path previous := modify fun tree => tree.restore path previous

namespace GeneratedFile

variable {m : Type → Type} {Content : Type} [Monad m] [FileStore m Content]

/-- Restores files, the one written last first. -/
def restoreAll : List (String × Option Content) → m Unit
  | [] => pure ()
  | (path, previous) :: written => do
    FileStore.restore path previous
    restoreAll written

/-- Writes files below `root`, behind those in `written`, the last of which comes first. -/
def writeFrom (root : String) (written : List (String × Option Content)) :
    List GeneratedFile → m (Except Failure (List String))
  | [] => return .ok (written.reverse.map (·.1))
  | file :: files => do
    let path := Path.join root file.path
    match ← FileStore.write? path file.content with
    | some previous => writeFrom root ((path, previous) :: written) files
    | none =>
      restoreAll written
      return .error .files

/-- Writes files below `root` and gives their paths. -/
def writeAll (root : String) (files : List GeneratedFile) : m (Except Failure (List String)) :=
  match checkCollisions files with
  | .ok _ => writeFrom root [] files
  | .error failure => return .error failure

end GeneratedFile

end Graphwright
