import Graphwright.Config
import Graphwright.Files.Store

/-!
The command line: its arguments, and a run with them.
-/
namespace Graphwright

/-- What the arguments of a command line say. -/
structure Invocation where
  schema : Option String := none
  output : Option String := none
  home : Option String := none
  backend : Option String := none
  /-- Substitutions as they were written. -/
  substitutions : List String := []
  config : Option String := none
  isVerbose : Bool := false
  deriving DecidableEq, Repr

namespace Invocation

/-- An option that takes a value. -/
inductive Setting
  | output | home | backend | substitution | config
  deriving DecidableEq, Repr

def settingNamed? : String → Option Setting
  | "output" => some .output
  | "namespace" => some .home
  | "backend" => some .backend
  | "substitute" => some .substitution
  | "config" => some .config
  | _ => none

/-- Why no run comes out of arguments. -/
inductive Stop
  | help
  | usage
  deriving DecidableEq, Repr

/-- A value for a place that has none; paths are not empty. -/
def once (isPath : Bool) (value : String) : Option String → Except Stop (Option String)
  | none => if isPath ∧ value = "" then .error .usage else .ok (some value)
  | some _ => .error .usage

def withSetting (args : Invocation) (value : String) : Setting → Except Stop Invocation
  | .output => do return { args with output := ← once true value args.output }
  | .home => do return { args with home := ← once false value args.home }
  | .backend => do return { args with backend := ← once false value args.backend }
  | .substitution => .ok { args with substitutions := args.substitutions ++ [value] }
  | .config => do return { args with config := ← once true value args.config }

def withSchema (args : Invocation) (value : String) : Except Stop Invocation := do
  return { args with schema := ← once true value args.schema }

def verbosely (args : Invocation) : Except Stop Invocation :=
  if args.isVerbose then .error .usage else .ok { args with isVerbose := true }

/-- The letters behind a single hyphen. A letter that takes a value takes the rest, or else waits
for the next argument. -/
def letters (args : Invocation) : List Char → Except Stop (Invocation × Option Setting)
  | [] => .ok (args, none)
  | 'h' :: _ => .error .help
  | 'v' :: cs => do letters (← args.verbosely) cs
  | 'o' :: [] => .ok (args, some .output)
  | 'o' :: '=' :: cs => do return (← args.withSetting (String.ofList cs) .output, none)
  | 'o' :: cs => do return (← args.withSetting (String.ofList cs) .output, none)
  | _ :: _ => .error .usage

/-- A word behind two hyphens. -/
def word (args : Invocation) (text : List Char) : Except Stop (Invocation × Option Setting) :=
  match Text.splitFirst? '=' text with
  | some (name, value) =>
    match settingNamed? (String.ofList name) with
    | some setting => do return (← args.withSetting (String.ofList value) setting, none)
    | none => .error .usage
  | none =>
    if text = "help".toList then .error .help
    else if text = "verbose".toList then do return (← args.verbosely, none)
    else match settingNamed? (String.ofList text) with
      | some setting => .ok (args, some setting)
      | none => .error .usage

/-- Reads arguments behind those in `args`; `waiting` is an option that still needs its value. -/
def readFrom (args : Invocation) (waiting : Option Setting) : List String → Except Stop Invocation
  | [] => if waiting = none then .ok args else .error .usage
  | text :: rest =>
    match text.toList, waiting with
    | '-' :: _ :: _, some _ => .error .usage
    | ['-', '-'], none => rest.foldlM withSchema args
    | '-' :: '-' :: cs, none => do
      let (args, waiting) ← args.word cs
      readFrom args waiting rest
    | '-' :: c :: cs, none => do
      let (args, waiting) ← args.letters (c :: cs)
      readFrom args waiting rest
    | _, some setting => do readFrom (← args.withSetting text setting) none rest
    | _, none => do readFrom (← args.withSchema text) none rest

def read (texts : List String) : Except Stop Invocation := readFrom {} none texts

/-- What the arguments set, which wins over a configuration file. -/
def toConfig (args : Invocation) : Except Failure Config := do
  let substitutions ← args.substitutions.mapM Config.substitution
  return {
    schema := args.schema
    output := args.output
    home := args.home
    backend := args.backend
    substitutions := Entries.sorted substitutions }

end Invocation

/-- How a run ends. -/
inductive Outcome
  | help
  | usage
  | missingSchema
  | missingOutput
  | failed (failure : Failure)
  | written (count : Nat) (folder : String)
  deriving DecidableEq, Repr

namespace Outcome

def exitCode : Outcome → Nat
  | help => 0
  | usage => 2
  | missingSchema => 1
  | missingOutput => 1
  | failed failure => if failure.isAbort then 101 else 1
  | written _ _ => 0

/-- What is said at the end of a run. -/
def message : Outcome → String
  | help => "Usage: gqlforge-codegen [OPTIONS] [SCHEMA]"
  | usage => "Usage: gqlforge-codegen [OPTIONS] [SCHEMA]"
  | missingSchema => "no schema given: pass a schema path or set `schema` in the config file"
  | missingOutput =>
    "no output directory given: pass --output or set `output` in the config file"
  | failed failure => failure.message
  | written count folder => "Generated " ++ toString count ++ " files in " ++ folder

end Outcome

section

variable {m : Type → Type} {Content : Type} [Monad m] [FileStore m Content]

/-- The settings in a configuration file, its paths seen from the file's directory. -/
def Config.load (path : String) : m (Except Failure Config) := do
  match ← FileStore.read? path with
  | none => return .error .files
  | some text =>
    return do
      let config ← Config.ofText text
      return match Path.parent? path with
        | some base => config.seenFrom base
        | none => config

/-- Generates the client for a schema file and writes it below a directory. -/
def generateFile (options : Options) (schema output : String) :
    m (Except Failure (List String)) := do
  match ← FileStore.read? schema with
  | none => return .error .files
  | some text =>
    match generate options text with
    | .error failure => return .error failure
    | .ok (files, _) => GeneratedFile.writeAll output files

/-- The settings of the file that the arguments name, or else of the one that is there. -/
def Invocation.loadConfig (args : Invocation) : m (Except Failure Config) := do
  match args.config with
  | some path => Config.load path
  | none =>
    if ← (FileStore.contains Config.fileName : m Bool) then Config.load Config.fileName
    else return .ok {}

/-- A run with the arguments that were read. -/
def Invocation.run (args : Invocation) : m Outcome := do
  match ← args.loadConfig with
  | .error failure => return .failed failure
  | .ok file =>
    match (do
      let config := file.merge (← args.toConfig)
      return (config, ← config.options)) with
    | .error failure => return .failed failure
    | .ok (config, options) =>
      match config.schema, config.output with
      | none, _ => return .missingSchema
      | some _, none => return .missingOutput
      | some schema, some output =>
        match ← generateFile options schema output with
        | .error failure => return .failed failure
        | .ok paths => return .written paths.length output

/-- A run with the arguments of a command line. -/
def run (texts : List String) : m Outcome :=
  match Invocation.read texts with
  | .error .help => return .help
  | .error .usage => return .usage
  | .ok args => args.run

end

end Graphwright
