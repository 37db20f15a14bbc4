import Graphwright.Rust.Type

/-!
Files of Rust as generated code uses them: expressions, statements and items. A file is put
together as data; only `Rust.Source` turns it into text.
-/
namespace Graphwright.Rust

inductive Expr
  | path (segments : List Ident)
  /-- A function at a path, for a type. -/
  | function (segments : List Ident) (type : Ty)
  | str (text : String)
  | call (function : Expr) (args : List Expr)
  | methodCall (receiver : Expr) (method : Ident) (args : List Expr)
  | field (base : Expr) (name : Ident)
  | borrow (value : Expr)
  | dereference (value : Expr)
  /-- The value of a fallible expression, which ends the function if it fails. -/
  | attempt (value : Expr)
  | paren (value : Expr)
  | array (elems : List Expr)
  | tuple (elems : List Expr)
  /-- A value of the type at hand; a field without a value is that of the variable of its name. -/
  | construct (fields : List (Ident × Option Expr))
  | closure (param : Ident) (type : Option Ty) (body : Expr)
  /-- A choice by patterns, which are paths or else match anything. -/
  | select (subject : Expr) (arms : List (Option (List Ident) × Expr))
  deriving Inhabited, Repr

namespace Expr

/-- A variable, or an item in scope. -/
def name (i : Ident) : Expr := path [i]

def word (text : String) : Expr := name (.plain text)

def self : Expr := word "self"

/-- A member of the type at hand. -/
def ownPath (i : Ident) : Expr := path [.plain "Self", i]

def some (value : Expr) : Expr := call (word "Some") [value]

def ok (value : Expr) : Expr := call (word "Ok") [value]

end Expr

inductive Stmt
  | bind (name : Ident) (isMutable : Bool) (value : Expr)
  /-- Binds the value that an optional variable holds, or else returns the receiver. -/
  | bindOrReturnSelf (name : Ident)
  /-- Evaluates an expression if an optional variable holds a value. -/
  | ifPresent (name : Ident) (body : Expr)
  | assign (target value : Expr)
  | perform (value : Expr)
  | return (value : Expr)
  /-- The value of a body. -/
  | result (value : Expr)
  deriving Repr

inductive Receiver
  | none | borrowed | owned | mutable
  deriving DecidableEq, Repr

structure Function where
  docs : List String
  isPublic : Bool
  name : Ident
  receiver : Receiver
  params : List (Ident × Ty)
  returns : Ty
  /-- A function without body is only declared. -/
  body : Option (List Stmt)
  deriving Repr

inductive Member
  /-- A text constant. -/
  | constant (isPublic : Bool) (name : Ident) (value : String)
  | function (f : Function)
  deriving Repr

structure Variant where
  docs : List String
  name : Ident
  deriving Repr

structure FieldDecl where
  docs : List String
  name : Ident
  type : Ty
  deriving Repr

/-- A type parameter, with the interface that it has to implement. -/
structure TypeParam where
  name : Ident
  bound : Option Ty
  deriving Repr

inductive Item
  /-- Brings names below a path into scope. -/
  | use (isPublic : Bool) (path : List Ident) (names : List Ident)
  | module (isPublic : Bool) (name : Ident)
  | enumeration (docs derives : List String) (name : Ident) (variants : List Variant)
  | record (docs derives : List String) (name : Ident) (param : Option TypeParam)
      (fields : List FieldDecl)
  | trait (docs : List String) (name : Ident) (members : List Member)
  | implementation (param : Option TypeParam) (trait : Option Ty) (type : Ty)
      (members : List Member)
  | typeAlias (docs : List String) (name : Ident) (type : Ty)
  deriving Repr

structure File where
  /-- The lines of the file's own documentation. -/
  title : List String
  /-- Warnings that the file turns off. -/
  allows : List String
  items : List Item
  deriving Repr

/-! ## Validity -/

namespace Ident

/-- Whether a name may stand behind the colons of a path. -/
def isMember (i : Ident) : Bool := !i.isKeyword || i.name ∈ ["self", "Self", "super", "crate", "try"]

end Ident

namespace Expr

mutual

/-- Whether the names and types in an expression are well-formed where they stand. -/
def isValid : Expr → Bool
  | path segments => segments.all Ident.isMember
  | .function _ type => type.isValid
  | str _ => true
  | call f args => isValid f && areValid args
  | methodCall receiver _ args => isValid receiver && areValid args
  | field base _ => isValid base
  | borrow value => isValid value
  | dereference value => isValid value
  | attempt value => isValid value
  | paren value => isValid value
  | array elems => areValid elems
  | tuple elems => areValid elems
  | construct fields => fieldsAreValid fields
  | closure _ type body => type.all Ty.isValid && isValid body
  | select subject arms => isValid subject && armsAreValid arms

def areValid : List Expr → Bool
  | [] => true
  | e :: es => isValid e && areValid es

def fieldsAreValid : List (Ident × Option Expr) → Bool
  | [] => true
  | (_, Option.some e) :: fs => isValid e && fieldsAreValid fs
  | (_, none) :: fs => fieldsAreValid fs

def armsAreValid : List (Option (List Ident) × Expr) → Bool
  | [] => true
  | (pattern, e) :: arms => (pattern.getD []).all Ident.isMember && isValid e && armsAreValid arms

end

end Expr

def Stmt.isValid : Stmt → Bool
  | bind _ _ value => value.isValid
  | bindOrReturnSelf _ => true
  | ifPresent _ body => body.isValid
  | assign target value => target.isValid && value.isValid
  | perform value => value.isValid
  | .return value => value.isValid
  | result value => value.isValid

def Function.isValid (f : Function) : Bool :=
  f.params.all (·.2.isValid) && f.returns.isValid && (f.body.getD []).all Stmt.isValid

def Member.isValid : Member → Bool
  | constant _ name _ => !name.isKeyword || name.name = "_"
  | .function f => f.isValid

/-- Whether what is implemented can be read as an interface; a mark of negation is read as one
without a path behind it. -/
def Ty.isReadableInterface (type : Ty) : Bool := type.form ≠ .never && type.isValid

/-- Whether what is implemented can be written as an interface: it is a path, also below a type
parameter. -/
def Ty.isInterface : Ty → Bool
  | verbatim .qualified (_ :: .ident i :: .symbol ">" :: _) => !i.isKeyword
  | type => type.form = .path

namespace Item

/-- Whether an item is well-formed. -/
def isValid : Item → Bool
  | use _ path _ => path.all (· ≠ .plain "Self")
  | module _ _ => true
  | enumeration _ _ _ variants => variants.all (!·.name.isKeyword)
  | record _ _ _ _ fields => fields.all (·.type.isValid)
  | trait _ _ members => members.all Member.isValid
  | implementation _ implemented type members =>
    implemented.all Ty.isReadableInterface && type.isValid && members.all Member.isValid
  | typeAlias _ _ type => type.isValid

/-- Whether an item, if it is an implementation, is one of an interface that can be written. -/
def isPrintable : Item → Bool
  | implementation _ implemented _ _ => implemented.all Ty.isInterface
  | _ => true

end Item

/-- The file, if it is well-formed and can be written. -/
def File.checked (file : File) : Except Failure File :=
  if !file.items.all Item.isValid then .error .unparsableCode
  else if !file.items.all Item.isPrintable then .error .unprintableInterface
  else .ok file

end Graphwright.Rust
