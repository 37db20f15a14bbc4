import Graphwright.CommandLine

/-!
The program: a run of the command line on the files of the machine.
-/
namespace Graphwright

/-- What an action gives, unless it fails. -/
def attempt? {α : Type} (action : IO α) : IO (Option α) := do
  try return some (← action) catch _ => return none

/-- The bytes of the file at a path, or nothing if there is no file. -/
def bytesAt (path : String) : IO (Option ByteArray) := do
  try return some (← IO.FS.readBinFile path)
  catch
    | .noFileOrDirectory .. => return none
    | e => throw e

instance : FileStore IO ByteArray where
  contains path := do return (← attempt? (IO.FS.realPath path)).isSome
  read? path := attempt? (IO.FS.readFile path)
  write? path content := attempt? do
    if let some folder := Path.parent? path then
      if folder ≠ "" then IO.FS.createDirAll folder
    let previous ← bytesAt path
    IO.FS.writeFile path content
    return previous
  restore path previous := do
    let _ ← attempt? <| match previous with
      | some bytes => IO.FS.writeBinFile path bytes
      | none => IO.FS.removeFile path

end Graphwright

def main (args : List String) : IO UInt32 := do
  let outcome ← (Graphwright.run args : IO Graphwright.Outcome)
  IO.eprintln outcome.message
  return outcome.exitCode.toUInt32
