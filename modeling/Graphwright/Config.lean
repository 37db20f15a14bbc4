import Graphwright.Generation
import Graphwright.Toml

/-!
What a run is told: by a configuration file, and by flags, which win.
-/
namespace Graphwright

/-- Settings, which may be missing; paths are as they were written. -/
structure Config where
  schema : Option String := none
  output : Option String := none
  /-- The root module of the client. -/
  home : Option String := none
  backend : Option String := none
  substitutions : Substitutions := []
  deriving DecidableEq, Repr

namespace Config

/-- The file that is read where no other is named. -/
def fileName : String := "gqlforge.toml"

/-- Settings as changed by others, of which those that are there win. -/
def merge (config overrides : Config) : Config where
  schema := overrides.schema <|> config.schema
  output := overrides.output <|> config.output
  home := overrides.home <|> config.home
  backend := overrides.backend <|> config.backend
  substitutions := overrides.substitutions.foldl (fun acc (name, path) =>
    Entries.putSorted name path acc) config.substitutions

/-- The texts of a table that holds nothing else. -/
def texts? : Toml → Option (List (String × String))
  | .table _ entries => entries.mapM fun
    | (key, .str s) => some (key, s)
    | (_, .table _ _) => none
  | .str _ => none

/-- The settings as changed by an entry of a configuration file. -/
def withEntry? (config : Config) : String × Toml → Option Config
  | ("schema", .str s) => some { config with schema := some s }
  | ("output", .str s) => some { config with output := some s }
  | ("namespace", .str s) => some { config with home := some s }
  | ("backend", .str s) => some { config with backend := some s }
  | ("substitutions", t) => do
    return { config with substitutions := Entries.sorted (← texts? t) }
  | _ => none

/-- The settings that the text of a configuration file holds. -/
def ofText (text : String) : Except Failure Config :=
  match (do (← Toml.ofText? text).foldlM withEntry? {}) with
  | some config => .ok config
  | none => .error .malformedConfig

/-- The settings as seen from the directory of the file that holds them. -/
def seenFrom (base : String) (config : Config) : Config :=
  { config with
    schema := config.schema.map (Path.join base), output := config.output.map (Path.join base) }

/-- The options of a run; the namespace is checked before the backend. -/
def options (config : Config) : Except Failure Options := do
  let home ← match config.home with
    | some root => Namespace.ofText root
    | none => .ok .default
  let backend := config.backend.getD Options.standard.backend
  let _ ← Backend.ofName backend
  return ⟨home, backend, config.substitutions⟩

/-- The type name and path of a flag. -/
def substitution (flag : String) : Except Failure (String × String) :=
  match Text.splitFirst? '=' flag.toList with
  | some (name, path) =>
    let name := Text.trim (String.ofList name)
    let path := Text.trim (String.ofList path)
    if name = "" ∨ path = "" then .error (.invalidSubstitution flag) else .ok (name, path)
  | none => .error (.invalidSubstitution flag)

end Config

end Graphwright
