/-!
What a schema holds that is passed over without an error.
-/
namespace Graphwright

inductive Warning
  | extensionIgnored (typeName : String)
  | directiveIgnored (directive : String)
  | builtinRedeclared (scalar : String)
  | substitutionUnused (typeName : String)
  deriving DecidableEq, Repr

def Warning.message : Warning → String
  | extensionIgnored _ => "type extensions are not applied; ignoring"
  | directiveIgnored _ => "directive definitions are not applied; ignoring"
  | builtinRedeclared _ => "ignoring redeclared built-in scalar"
  | substitutionUnused _ => "substitution names no registered type; ignoring"

end Graphwright
