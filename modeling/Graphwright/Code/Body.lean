import Graphwright.Code.Type

/-!
Methods of generated items: signatures, statements and expressions.
-/
namespace Graphwright.Code

/-- Whether a response entry may be missing. -/
inductive Presence
  | optional | required
  deriving DecidableEq, Repr

inductive Expr
  | var (name : String)
  | self
  | field (base : Expr) (name : String)
  /-- A constant of the item. -/
  | constant (name : String)
  | str (text : String)
  /-- A map of arguments. -/
  | arguments (entries : List (Expr × Expr))
  /-- A value in the form in which it is sent. -/
  | toInput (value : Expr)
  | methodCall (receiver : Expr) (method : String) (args : List Expr)
  /-- A call of a function of the item. -/
  | associatedCall (function : String) (args : List Expr)
  /-- A value of the item. -/
  | construct (fields : List (String × Expr))
  /-- A slot that no response has set. -/
  | unset
  | request (kind : OperationKind) (action : String) (arguments : Expr) (selection : Option String)
  | send (request : Expr)
  /-- The value of a fallible expression; a failure ends the method. -/
  | attempt (value : Expr)
  | borrow (value : Expr)
  /-- The entry of a response map under a key. -/
  | decode (source : Expr) (key : String) (decoder : Decoder) (presence : Presence)
  /-- A borrowed slot, which fails when unset. -/
  | readHydrated (property wireName : String) (type : TypeExpr)
  /-- The item's own getter; its value becomes a present one if it is to be `widened`. -/
  | delegate (getter : String) (widened : Bool)
  | success (value : Expr)
  deriving Inhabited, Repr

inductive Stmt
  | bind (name : String) (isMutable : Bool) (value : Expr)
  | assign (target value : Expr)
  | insert (map key value : Expr)
  /-- Inserts a parameter's value if it is present. -/
  | insertIfPresent (map key : Expr) (param : String)
  /-- Ends the method with the receiver if a parameter's value is absent. -/
  | returnSelfIfAbsent (param : String)
  | select (selection field arguments : Expr) (nested : Option String)
  | return (value : Expr)
  deriving Repr

inductive Receiver
  | static | borrowed | owned
  deriving DecidableEq, Repr

structure Param where
  name : String
  type : TypeExpr
  deriving DecidableEq, Repr

inductive Returns
  | value (type : TypeExpr)
  | fallible (type : TypeExpr)
  /-- A borrowed view of a stored value, or a failure. -/
  | borrowed (type : TypeExpr)
  deriving DecidableEq, Repr

structure Method where
  name : String
  docs : Option String
  isPublic : Bool
  receiver : Receiver
  params : List Param
  returns : Returns
  body : List Stmt
  deriving Repr

end Graphwright.Code
