import Graphwright.Rust.Body

/-!
The items of Rust that a generated item consists of.
-/
namespace Graphwright.Rust

open Code (RuntimeItem)

namespace Imports

def constants (cs : List Code.Constant) : Except Failure (List Member) :=
  cs.mapM fun c => do return .constant true (← Ident.ofName c.name) c.value

/-- A function without parameters besides its receiver. -/
def simpleFunction (docs : List String) (isPublic : Bool) (name : Ident) (receiver : Receiver)
    (returns : Ty) (result : Expr) : Member :=
  .function
    { docs, isPublic, name, receiver, params := [], returns, body := some [.result result] }

def ownSlice : Ty := .reference true (.slice .self)

/-- The marker type behind a custom scalar. -/
def markerName (item : Code.Model) : String := item.name ++ "Tag"

def customScalar (imports : Imports) (item : Code.Model) (name : Ident) :
    Except Failure (List Item) := do
  let marker ← Ident.ofName (markerName item)
  let docs := " Tag for the `" ++ item.typeName ++ "` scalar"
  return [
    .enumeration [docs] ["Debug", "Clone", "Copy", "PartialEq", "Eq"] marker [],
    .implementation none (imports.runtimeType .scalarTag []) (.named marker)
      [.constant false (.plain "NAME") item.typeName],
    .typeAlias (docLines item.docs) name (imports.runtimeType .scalar [.named marker])]

/-- The members of an enum: a constant per value that holds its wire name, an accessor per value,
and the list of all. -/
def enumerationMembers (values : List Code.EnumValue) : Except Failure (List Member) := do
  let constants ← constants (values.map fun v => ⟨v.constant, v.wireName⟩)
  let accessors ← values.mapM fun v => do
    return simpleFunction [] true (← Ident.escaped v.accessor) .none .self
      (.ownPath (← Ident.ofName v.variant))
  let all ← values.mapM fun v => do return Expr.ownPath (← Ident.ofName v.variant)
  return constants ++ accessors
    ++ [simpleFunction [" Every value, in declaration order."] true (.plain "options") .none
      ownSlice (.borrow (.array all))]

def enumeration (imports : Imports) (item : Code.Model) (name : Ident)
    (values : List Code.EnumValue) : Except Failure (List Item) := do
  let variants ← values.mapM fun v => do
    return (⟨docLines v.docs, ← Ident.ofName v.variant⟩ : Variant)
  let members ← enumerationMembers values
  let ownPath (name : Ident) : List Ident := [.plain "Self", name]
  let toWire ← values.mapM fun v => do
    return (some (ownPath (← Ident.ofName v.variant)), Expr.ownPath (← Ident.ofName v.constant))
  let fromWire ← values.mapM fun v => do
    return (some (ownPath (← Ident.ofName v.constant)),
      Expr.some (.ownPath (← Ident.ofName v.variant)))
  let value := Ident.plain "value"
  let wireText := Expr.methodCall
    (.call (.path (imports.runtimePath .graphQLEnum ++ [.plain "as_str"])) [.self])
    (.plain "to_string") []
  return [
    .enumeration (docLines item.docs)
      ["Debug", "Clone", "Copy", "PartialEq", "Eq", "Hash"] name variants,
    .implementation none none (.named name) members,
    .implementation none (imports.runtimeType .graphQLEnum []) (.named name) [
      .constant false (.plain "TYPE_NAME") item.typeName,
      simpleFunction [] false (.plain "as_str") .borrowed .staticText
        (.select (.dereference .self) toWire),
      .function
        { docs := [], isPublic := false, name := .plain "from_wire", receiver := .none
          params := [(value, .reference false (.standard "str" []))]
          returns := .standard "Option" [.self]
          body := some [.result
            (.select (.name value) (fromWire ++ [(none, .word "None")]))] },
      simpleFunction [] false (.plain "options") .none ownSlice
        (.call (.ownPath (.plain "options")) [])],
    .implementation none (imports.runtimeType .toInputValue []) (.named name) [
      simpleFunction [] false (.plain "to_input_value") .borrowed
        (imports.runtimeType .inputValue [])
        (.call (.path (imports.runtimePath .inputValue ++ [.plain "Enum"])) [wireText])]]

def inputObject (imports : Imports) (item : Code.Model) (name : Ident) (cls : Code.Class) :
    Except Failure (List Item) := do
  let store := Ident.plain Code.inputStore
  let constants ← constants cls.constants
  let methods ← imports.methods .inherent cls.methods
  return [
    .record (docLines item.docs) ["Debug", "Clone", "PartialEq"] name none
      [⟨[], store, imports.runtimeType .arguments []⟩],
    .implementation none none (.named name) (constants ++ methods),
    .implementation none (imports.runtimeType .toInputValue []) (.named name) [
      simpleFunction [] false (.plain "to_input_value") .borrowed
        (imports.runtimeType .inputValue [])
        (.call (.path (imports.runtimePath .inputValue ++ [.plain "Object"]))
          [.methodCall (.field .self store) (.plain "clone") []])]]

def outputObject (imports : Imports) (item : Code.Model) (name : Ident)
    (properties : List Code.Property) (ms : List Code.Method)
    (conformances : List Code.Conformance) : Except Failure (List Item) := do
  let fields ← properties.mapM fun p => do
    let field ← Ident.escaped p.name
    return (⟨docLines p.docs, field, ← imports.ownedType p.type⟩ : FieldDecl)
  let inherent ← imports.methods .inherent ms
  let implementations ← conformances.mapM fun c => do
    let interface ← imports.typeAt c.interface
    return Item.implementation none (some interface) (.named name)
      (← imports.methods .implemented c.methods)
  let response := Ty.reference false
    (imports.runtimeType .map [.string, imports.runtimeType .value []])
  let entries := Ident.plain "fields"
  return [
    .record (docLines item.docs) ["Debug", "Clone", "PartialEq"] name none fields,
    .implementation none none (.named name) inherent,
    .implementation none (imports.runtimeType .outputObject []) (.named name) [
      .constant false (.plain "TYPE_NAME") item.typeName,
      .function
        { docs := [], isPublic := false, name := .plain "from_map", receiver := .none
          params := [(entries, response)]
          returns := imports.fallible .self
          body := some [.result (.call (.ownPath (.plain "from_map")) [.name entries])] }]]
    ++ implementations

def interface (imports : Imports) (item : Code.Model) (name : Ident)
    (accessors : List Code.Method) : Except Failure (List Item) := do
  return [.trait (docLines item.docs) name (← imports.methods .declared accessors)]

def fieldSelection (imports : Imports) (item : Code.Model) (name : Ident) (cls : Code.Class) :
    Except Failure (List Item) := do
  let store := Ident.plain Code.selectionStore
  let constants ← constants cls.constants
  let methods ← imports.methods .inherent cls.methods
  let selection := imports.runtimeType .fieldSelection []
  return [
    .record (docLines item.docs) ["Debug", "Clone", "Default", "PartialEq"] name none
      [⟨[], store, selection⟩],
    .implementation none none (.named name) <|
      constants
        ++ [simpleFunction [" Creates a builder with nothing selected."] true (.plain "new") .none
          .self (.call (.ownPath (.plain "default")) [])]
        ++ methods
        ++ [simpleFunction [" The recorded selection set."] true (.plain "into_selection") .owned
          selection (.field .self store)]]

/-- The type parameter of a service: what sends its requests. -/
def transportParam : Ident := .plain "T"

def service (imports : Imports) (item : Code.Model) (name : Ident) (cls : Code.Class) :
    Except Failure (List Item) := do
  let store := Ident.plain Code.transportStore
  let param := Ty.named transportParam
  let methods ← imports.methods .inherent cls.methods
  return [
    .record (docLines item.docs) ["Debug", "Clone"] name (some ⟨transportParam, none⟩)
      [⟨[], store, param⟩],
    .implementation (some ⟨transportParam, some (imports.runtimeType .transport [])⟩) none
      (.path [] name [param]) <|
      .function
        { docs := [" Creates a service sending every request through `transport`."]
          isPublic := true, name := .plain "new", receiver := .none, params := [(store, param)]
          returns := .self, body := some [.result (.construct [(store, none)])] }
        :: methods]

def declarations (imports : Imports) (item : Code.Model) : Except Failure (List Item) := do
  let name ← Ident.escaped item.name
  match item.artifact with
  | .customScalar => imports.customScalar item name
  | .enumeration values => imports.enumeration item name values
  | .inputObject cls => imports.inputObject item name cls
  | .outputObject properties methods conformances =>
    imports.outputObject item name properties methods conformances
  | .interface accessors => imports.interface item name accessors
  | .fieldSelection cls => imports.fieldSelection item name cls
  | .service cls => imports.service item name cls

end Imports

end Graphwright.Rust
