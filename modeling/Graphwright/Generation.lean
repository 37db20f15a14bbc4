import Graphwright.Backend
import Graphwright.Client.Basic
import Graphwright.Registry.Build
import Graphwright.Schema.Grammar

/-!
From the text of a schema to the files of a client, all in memory.
-/
namespace Graphwright

structure Options where
  /-- The root module of the client. -/
  home : Namespace
  /-- The name of the backend. -/
  backend : String
  substitutions : Substitutions

namespace Options

/-- What holds where nothing else is said. -/
def standard : Options := ⟨.default, "rust", []⟩

def isStandard (options : Options) : Bool :=
  options.home.root = standard.home.root && options.backend = standard.backend
    && options.substitutions = standard.substitutions

end Options

/-- The registry of a schema text, with what is passed over. -/
def registryOfText (home : Namespace) (substitutions : Substitutions) (text : String) :
    Except Failure (Registry × List Warning) := do
  let (document, first) ← (Schema.Document.parse text).mapError .malformedSchema
  let (registry, second) ← Registry.build document home substitutions
  return (registry, first ++ second)

/-- The files of the client for a schema text, with what is passed over. -/
def generate (options : Options) (text : String) :
    Except Failure (List GeneratedFile × List Warning) := do
  let backend ← Backend.ofName options.backend
  let (registry, warnings) ← registryOfText options.home options.substitutions text
  let files ← backend.render registry.home (← Client.models registry)
  GeneratedFile.checkCollisions files
  return (files, warnings)

end Graphwright
