import Graphwright.Rust.Signature
import Graphwright.Text.Lines

/-!
Methods of generated items in Rust.
-/
namespace Graphwright.Rust

open Code (Decoder)

/-- The lines of a documentation text, each behind a blank and without blanks at its end. -/
def docLines (docs : Option String) : List String :=
  ((docs.map fun text => Text.lines text.toList).getD []).map fun line =>
    String.ofList (' ' :: Text.trimEnd line)

namespace Imports

/-- A function of the client library that decodes. -/
def decodePath (imports : Imports) (function : String) : List Ident :=
  imports.runtimePath .decode ++ [.plain function]

/-- A function of the response value. -/
def valueClosure (imports : Imports) (body : Expr) : Expr :=
  .closure (.plain "value") (some (.reference false (imports.runtimeType .value []))) body

/-- A function from response values to decoded ones. -/
def decoder (imports : Imports) : Decoder → Except Failure Expr
  | .scalar primitive =>
    .ok (.function (imports.decodePath "scalar") (Ty.ofPrimitive primitive))
  | .enumeration path => do
    return .function (imports.decodePath "enumeration") (← imports.typeAt path)
  | .object path => do return .function (imports.decodePath "object") (← imports.typeAt path)
  | .customScalar path => do
    return .function (imports.decodePath "custom_scalar") (← imports.typeAt path)
  | .list element => do
    return imports.valueClosure
      (.call (.path (imports.decodePath "list")) [.word "value", ← imports.decoder element])
  | .nullable inner => do
    return imports.valueClosure
      (.call (.path (imports.decodePath "nullable")) [.word "value", ← imports.decoder inner])
  | .boxed inner => do
    let function ← imports.decoder inner
    let called := match inner with
      | .list _ => Expr.paren function
      | .nullable _ => .paren function
      | .boxed _ => .paren function
      | _ => function
    return imports.valueClosure
      (.methodCall (.call called [.word "value"]) (.plain "map") [.path [.plain "Box", .plain "new"]])

/-- The selection that a nested builder holds, if there is one. -/
def nestedSelection : Option String → Except Failure Expr
  | some param => do
    return .some (.methodCall (.name (← Ident.escaped param)) (.plain "into_selection") [])
  | none => .ok (.word "None")

mutual

def expr (imports : Imports) : Code.Expr → Except Failure Expr
  | .var name => do return .name (← Ident.escaped name)
  | .self => .ok .self
  | .field base name => do
    let base ← imports.expr base
    return .field base (← Ident.escaped name)
  | .constant name => do return .ownPath (← Ident.ofName name)
  | .str text => .ok (.str text)
  | .arguments entries => do
    let path := imports.runtimePath .arguments
    if entries.isEmpty then return .call (.path (path ++ [.plain "new"])) []
    return .call (.path (path ++ [.plain "from"])) [.array (← imports.entries entries)]
  | .toInput value => do
    return .methodCall (← imports.expr value) (.plain "to_input_value") []
  | .methodCall receiver method args => do
    let receiver ← imports.expr receiver
    let method ← Ident.escaped method
    return .methodCall receiver method (← imports.exprs args)
  | .associatedCall function args => do
    let function ← Ident.escaped function
    return .call (.ownPath function) (← imports.exprs args)
  | .construct fields => do return .construct (← imports.fields fields)
  | .unset => .ok (.path (imports.runtimePath .hydrated ++ [.plain "Unset"]))
  | .request kind action arguments selection => do
    let arguments ← imports.expr arguments
    let selection ← nestedSelection selection
    return .call (.path (imports.runtimePath .request ++ [.plain kind.text]))
      [.str action, arguments, selection]
  | .send request => do
    let request ← imports.expr request
    return .methodCall (.field .self (.plain Code.transportStore)) (.plain "send") [.borrow request]
  | .attempt value => do return .attempt (← imports.expr value)
  | .borrow value => do return .borrow (← imports.expr value)
  | .decode source key decoder presence => do
    let source ← imports.expr source
    let decoder ← imports.decoder decoder
    let function := match presence with
      | .optional => "field"
      | .required => "required"
    return .call (.path (imports.decodePath function)) [source, .str key, decoder]
  | .readHydrated property wireName type => do
    let property ← Ident.escaped property
    let (_, adapter) ← imports.borrowedView type
    let slot := Expr.methodCall (.field .self property) (.plain "get") [.str wireName]
    return match adapter with
      | some function => .methodCall slot (.plain "map") [function]
      | none => slot
  | .delegate getter widened => do
    let call := Expr.call (.ownPath (← Ident.escaped getter)) [.self]
    return if widened then .methodCall call (.plain "map") [.word "Some"] else call
  | .success value => do return .ok (← imports.expr value)

def exprs (imports : Imports) : List Code.Expr → Except Failure (List Expr)
  | [] => .ok []
  | e :: es => do
    let first ← imports.expr e
    return first :: (← imports.exprs es)

/-- Pairs of keys and values. -/
def entries (imports : Imports) : List (Code.Expr × Code.Expr) → Except Failure (List Expr)
  | [] => .ok []
  | (key, value) :: rest => do
    let key ← imports.expr key
    let value ← imports.expr value
    return .tuple [key, value] :: (← imports.entries rest)

def fields (imports : Imports) :
    List (String × Code.Expr) → Except Failure (List (Ident × Option Expr))
  | [] => .ok []
  | (name, value) :: rest => do
    let name ← Ident.escaped name
    let value ← imports.expr value
    return (name, some value) :: (← imports.fields rest)

end

/-- A statement; the last one of a body gives its value. -/
def stmt (imports : Imports) (isLast : Bool) : Code.Stmt → Except Failure Stmt
  | .bind name isMutable value => do
    let name ← Ident.escaped name
    return .bind name isMutable (← imports.expr value)
  | .assign target value => do
    let target ← imports.expr target
    return .assign target (← imports.expr value)
  | .insert map key value => do
    let map ← imports.expr map
    let key ← imports.expr key
    return .perform (.methodCall map (.plain "insert") [key, ← imports.expr value])
  | .insertIfPresent map key param => do
    let map ← imports.expr map
    let key ← imports.expr key
    let param ← Ident.escaped param
    return .ifPresent param (.methodCall map (.plain "insert")
      [key, .methodCall (.name param) (.plain "to_input_value") []])
  | .returnSelfIfAbsent param => do return .bindOrReturnSelf (← Ident.escaped param)
  | .select selection field arguments nested => do
    let selection ← imports.expr selection
    let field ← imports.expr field
    let arguments ← imports.expr arguments
    return .perform (.methodCall selection (.plain "select")
      [field, arguments, ← nestedSelection nested])
  | .return value => do
    let value ← imports.expr value
    return if isLast then .result value else .return value

def stmts (imports : Imports) : List Code.Stmt → Except Failure (List Stmt)
  | [] => .ok []
  | s :: rest => do
    let first ← imports.stmt rest.isEmpty s
    return first :: (← imports.stmts rest)

/-- Where a method stands. -/
inductive Placement
  /-- In the item itself. -/
  | inherent
  /-- In an interface, without body. -/
  | declared
  /-- In the implementation of an interface. -/
  | implemented
  deriving DecidableEq, Repr

def receiver : Code.Receiver → Receiver
  | .static => .none
  | .borrowed => .borrowed
  | .owned => .mutable

def method (imports : Imports) (placement : Placement) (m : Code.Method) :
    Except Failure Member := do
  let name ← Ident.escaped m.name
  let params ← m.params.mapM fun param => do
    let name ← Ident.escaped param.name
    return (name, ← imports.ownedType param.type)
  let returns ← imports.returnType m.returns
  let body ← if placement = .declared then pure none else some <$> imports.stmts m.body
  return .function
    { docs := docLines m.docs
      isPublic := placement = .inherent && m.isPublic
      name, receiver := receiver m.receiver, params, returns, body }

def methods (imports : Imports) (placement : Placement) (ms : List Code.Method) :
    Except Failure (List Member) :=
  ms.mapM (imports.method placement)

end Imports

end Graphwright.Rust
