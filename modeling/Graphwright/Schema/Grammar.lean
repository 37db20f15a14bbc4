import Graphwright.Schema.Basic
import Graphwright.Schema.Lexeme
import Graphwright.Schema.Literal
import Graphwright.Warning

/-!
The grammar of schema documents. One lexeme decides every choice, so the error is the start of the
first lexeme that cannot continue; what is well formed but means nothing is reported at the word
that opens it.
-/
namespace Graphwright.Schema

/-- Reads lexemes from the front; the error is the place of the one that was not expected. -/
abbrev Grammar (α : Type) := StateT (List Lexeme) (Except Position) α

namespace Grammar

def peek : Grammar Lexeme := do
  return (← get).headD ⟨{}, .finish⟩

def skip : Grammar Unit := modify (List.drop 1)

/-- Refuses the next lexeme. -/
def refuse {α : Type} : Grammar α := do throw (← peek).start

def atPunctuator (c : Char) : Grammar Bool := do
  return (← peek).token = .punctuator c

def atWord (word : String) : Grammar Bool := do
  return (← peek).token = .name word

def punctuator (c : Char) : Grammar Unit := do
  if ← atPunctuator c then skip else refuse

def word (word : String) : Grammar Unit := do
  if ← atWord word then skip else refuse

def name : Grammar String := do
  match (← peek).token with
  | .name text => skip; return text
  | _ => refuse

/-- As many items as `start` lexemes begin, at most `fuel`. -/
def manyWhile {α : Type} (starts : Token → Bool) (item : Grammar α) : Nat → Grammar (List α)
  | 0 => return []
  | fuel + 1 => do
    if starts (← peek).token then
      let first ← item
      return first :: (← manyWhile starts item fuel)
    else return []

/-- Items while their first lexeme satisfies `starts`; every item takes a lexeme. -/
def many {α : Type} (starts : Token → Bool) (item : Grammar α) : Grammar (List α) := do
  manyWhile starts item (← get).length

def many1 {α : Type} (starts : Token → Bool) (item : Grammar α) : Grammar (List α) := do
  let first ← item
  return first :: (← many starts item)

/-- Names with `c` between them. -/
def namesBy (c : Char) : Grammar (List String) := do
  let first ← name
  let rest ← many (· = .punctuator c) do
    skip
    name
  return first :: rest

/-- The item in the brackets `opening` and `closing`, or `none` if the next lexeme is not the
former. -/
def bracketed? {α : Type} (opening closing : Char) (item : Grammar α) : Grammar (Option α) := do
  if ← atPunctuator opening then
    skip
    let x ← item
    punctuator closing
    return some x
  else return none

def isName : Token → Bool
  | .name _ => true
  | _ => false

def isString : Token → Bool
  | .string _ => true
  | _ => false

/-- What starts an item that may be described. -/
def startsDescribed (t : Token) : Bool := isName t || isString t

def description : Grammar (Option String) := do
  match (← peek).token with
  | .string text => skip; return some text
  | _ => return none

/-- What starts a value. -/
def startsValue (allowsNames : Bool) : Token → Bool
  | .int _ | .float _ | .string _ | .name _ => true
  | .punctuator c => c = '[' || c = '\x7b' || allowsNames && c = '$'
  | _ => false

/-- A value; `$name` only if `allowsNames`. -/
def value (allowsNames : Bool) : Nat → Grammar Literal
  | 0 => refuse
  | fuel + 1 => do
    match (← peek).token with
    | .int n => skip; return .int n
    | .float x => skip; return .float x
    | .string s => skip; return .string s
    | .name "true" => skip; return .bool true
    | .name "false" => skip; return .bool false
    | .name "null" => skip; return .null
    | .name text => skip; return .enum text
    | .punctuator '[' =>
      skip
      let elements ← many (startsValue allowsNames) (value allowsNames fuel)
      punctuator ']'
      return .list elements
    | .punctuator '\x7b' =>
      skip
      let members ← many isName do
        let key ← name
        punctuator ':'
        return (key, ← value allowsNames fuel)
      punctuator '\x7d'
      return .object (Entries.sorted members)
    | .punctuator '$' =>
      if allowsNames then
        skip
        return .var (← name)
      else refuse
    | _ => refuse

def literal (allowsNames : Bool) : Grammar Literal := do
  value allowsNames ((← get).length + 1)

/-- A directive; how many there are is all that counts. -/
def directives : Grammar Nat := do
  let applied ← many (· = .punctuator '@') do
    skip
    let _ ← name
    let _ ← bracketed? '(' ')' <| many1 isName do
      let _ ← name
      punctuator ':'
      literal true
  return applied.length

def typeRef : Nat → Grammar TypeRef
  | 0 => refuse
  | fuel + 1 => do
    let core ← if ← atPunctuator '[' then do
        skip
        let element ← typeRef fuel
        punctuator ']'
        pure (TypeRef.list element)
      else pure (TypeRef.named (← name))
    if ← atPunctuator '!' then
      skip
      return .nonNull core
    else return core

def type : Grammar TypeRef := do
  typeRef ((← get).length + 1)

def input : Grammar Input := do
  let description ← description
  let name ← name
  punctuator ':'
  let type ← type
  let default ← if ← atPunctuator '=' then do
      skip
      pure (some (← literal false).text)
    else pure none
  let _ ← directives
  return ⟨name, description, type, default⟩

def inputs (opening closing : Char) : Grammar (List Input) := do
  return ((← bracketed? opening closing (many1 startsDescribed input)).getD [])

def field : Grammar Field := do
  let description ← description
  let name ← name
  let arguments ← inputs '(' ')'
  punctuator ':'
  let type ← type
  let _ ← directives
  return ⟨name, description, arguments, type⟩

def fields : Grammar (List Field) := do
  return ((← bracketed? '\x7b' '\x7d' (many1 startsDescribed field)).getD [])

def enumValue : Grammar EnumValue := do
  let description ← description
  let name ← name
  let _ ← directives
  return ⟨name, description⟩

def interfaces : Grammar (List String) := do
  if ← atWord "implements" then
    skip
    if ← atPunctuator '&' then skip
    namesBy '&'
  else return []

def unionMembers : Grammar (List String) := do
  if ← atPunctuator '=' then
    skip
    if ← atPunctuator '|' then skip
    namesBy '|'
  else return []

/-- A type form with its name, and whether anything follows the name that an extension could add. -/
def typeForm : Grammar (String × Shape × Bool) := do
  match (← peek).token with
  | .name "scalar" =>
    skip
    let name ← name
    let applied ← directives
    return (name, .scalar, applied ≠ 0)
  | .name "type" =>
    skip
    let name ← name
    let interfaces ← interfaces
    let applied ← directives
    let fields ← fields
    return (name, .object interfaces fields, interfaces ≠ [] ∨ applied ≠ 0 ∨ fields ≠ [])
  | .name "interface" =>
    skip
    let name ← name
    let _ ← interfaces
    let applied ← directives
    let fields ← fields
    return (name, .interface fields, applied ≠ 0 ∨ fields ≠ [])
  | .name "union" =>
    skip
    let name ← name
    let applied ← directives
    let members ← unionMembers
    return (name, .union members, applied ≠ 0 ∨ members ≠ [])
  | .name "enum" =>
    skip
    let name ← name
    let applied ← directives
    let values ← bracketed? '\x7b' '\x7d' (many1 startsDescribed enumValue)
    return (name, .enumeration (values.getD []), applied ≠ 0 ∨ values.isSome)
  | .name "input" =>
    skip
    let name ← name
    let applied ← directives
    let fields ← inputs '\x7b' '\x7d'
    return (name, .inputObject fields, applied ≠ 0 ∨ fields ≠ [])
  | _ => refuse

def directiveLocations : List String :=
  ["QUERY", "MUTATION", "SUBSCRIPTION", "FIELD", "FRAGMENT_DEFINITION", "FRAGMENT_SPREAD",
    "INLINE_FRAGMENT", "VARIABLE_DEFINITION", "SCHEMA", "SCALAR", "OBJECT", "FIELD_DEFINITION",
    "ARGUMENT_DEFINITION", "INTERFACE", "UNION", "ENUM", "ENUM_VALUE", "INPUT_OBJECT",
    "INPUT_FIELD_DEFINITION"]

def location : Grammar Unit := do
  match (← peek).token with
  | .name text => if directiveLocations.contains text then skip else refuse
  | _ => refuse

def directiveDefinition : Grammar String := do
  word "directive"
  punctuator '@'
  let name ← name
  let _ ← inputs '(' ')'
  if ← atWord "repeatable" then skip
  word "on"
  let next := (← peek).token
  if next = .punctuator '|' then skip
  if next = .punctuator '|' ∨ isName next then
    location
    let _ ← many (· = .punctuator '|') do
      skip
      location
  return name

/-- The operation that a root type is named for. -/
inductive RootKind
  | query | mutation | subscription
  deriving DecidableEq

def RootKind.ofWord? : String → Option RootKind
  | "query" => some .query
  | "mutation" => some .mutation
  | "subscription" => some .subscription
  | _ => none

/-- The root types that a schema block names: known operations, each at most once. -/
def rootsOf? : List (String × String) → Option (List (RootKind × String))
  | [] => some []
  | (operation, typeName) :: rest => do
    let kind ← RootKind.ofWord? operation
    let others ← rootsOf? rest
    if others.any (·.1 = kind) then none else some ((kind, typeName) :: others)

def schemaBlock : Grammar (List (RootKind × String)) := do
  let start := (← peek).start
  word "schema"
  let _ ← directives
  punctuator '\x7b'
  let operations ← many isName do
    let operation ← name
    punctuator ':'
    return (operation, ← name)
  punctuator '\x7d'
  match rootsOf? operations with
  | some roots => return roots
  | none => throw start

/-- An entry of a document. -/
inductive Entry
  | schema (roots : List (RootKind × String))
  | definition (d : Definition)
  | extension (typeName : String)
  | directive (name : String)

def extension : Grammar Entry := do
  word "extend"
  let start := (← peek).start
  let (name, _, extends_) ← typeForm
  if extends_ then return .extension name else throw start

def entry : Grammar Entry := do
  if ← atWord "schema" then return .schema (← schemaBlock)
  else if ← atWord "extend" then extension
  else
    let description ← description
    if ← atWord "directive" then return .directive (← directiveDefinition)
    else
      let (name, shape, _) ← typeForm
      return .definition ⟨name, description, shape⟩

def entries : Grammar (List Entry) := many1 (· ≠ .finish) entry

end Grammar

/-- A schema block replaces the root types that it names. -/
def Roots.replace (roots : Roots) : List (Grammar.RootKind × String) → Roots
  | [] => roots
  | (.query, typeName) :: rest => Roots.replace { roots with query := typeName } rest
  | (.mutation, typeName) :: rest => Roots.replace { roots with mutation := typeName } rest
  | (.subscription, _) :: rest => Roots.replace roots rest

/-- The document that entries make up, with what they hold that is not applied. -/
def Document.ofEntries (entries : List Grammar.Entry) : Document × List Warning :=
  let definitions := entries.filterMap fun
    | .definition d => some d
    | _ => none
  let roots := entries.foldl (fun roots e => match e with
    | .schema named => roots.replace named
    | _ => roots) {}
  let warnings := entries.filterMap fun
    | .extension name => some (.extensionIgnored name)
    | .directive name => some (.directiveIgnored name)
    | _ => none
  (⟨definitions, roots⟩, warnings)

/-- The document that a text writes, or the place of the error. -/
def Document.parse (text : String) : Except Position (Document × List Warning) := do
  let (entries, _) ← Grammar.entries.run (Lexeme.ofText text)
  return Document.ofEntries entries

end Graphwright.Schema
