import Graphwright.Client.Members
import Graphwright.Client.Reference
import Graphwright.Code.Model
import Graphwright.Text.Words

/-!
How a method assembles the argument map of a field: required arguments in a literal, optional ones
inserted when present.
-/
namespace Graphwright.Client

open Code

/-- The name of a field or argument as a member of generated code. -/
def memberName (name : String) : String := Text.snakeCase name

/-- A parameter for an argument. -/
structure ArgumentParam where
  argument : String
  param : String
  isOptional : Bool
  /-- The type of a present value. -/
  type : TypeExpr
  path : Option String

namespace ArgumentParam

def toParam (a : ArgumentParam) : Param :=
  ⟨a.param, if a.isOptional then .nullable a.type else a.type⟩

/-- The entry of a required argument. -/
def entry (a : ArgumentParam) : Expr × Expr := (.str a.argument, .toInput (.var a.param))

end ArgumentParam

/-- The local that holds the map while optional arguments are inserted. -/
def argumentsLocal : String := "arguments"

/-- The parameters for the arguments of `owner`, each with a name of its own that no reserved name
is. -/
def argumentParams (r : Registry) (owner : String) (reserved : List String) (scope : Members) :
    List Schema.Input → Except Failure (List ArgumentParam)
  | [] => .ok []
  | argument :: rest => do
    let context := "argument " ++ owner ++ "(" ++ argument.name ++ ")"
    let resolved ← resolveConcrete r argument.type context
    let plain := memberName argument.name
    let name := if plain ∈ reserved then plain ++ "_arg" else plain
    let scope ← scope.claim name context
    let first : ArgumentParam :=
      ⟨argument.name, name, argument.isOptional, (TypeExpr.ofResolved resolved).nonNull,
        basePath? resolved⟩
    return first :: (← argumentParams r owner reserved scope rest)

/-- Parameters, the statements to run first, and the expression for the finished map. -/
structure ArgumentPlan where
  params : List Param
  setup : List Stmt
  map : Expr
  items : List RuntimeItem
  paths : List String

namespace ArgumentPlan

def ofParams (args : List ArgumentParam) : ArgumentPlan :=
  let literal := Expr.arguments ((args.filter (!·.isOptional)).map (·.entry))
  let optional := args.filter (·.isOptional)
  { params := args.map (·.toParam)
    setup := if optional = [] then [] else
      .bind argumentsLocal true literal :: optional.map fun a =>
        .insertIfPresent (.var argumentsLocal) (.str a.argument) a.param
    map := if optional = [] then literal else .var argumentsLocal
    items := if args = [] then [] else [.arguments, .toInputValue]
    paths := args.filterMap (·.path) }

end ArgumentPlan

def planArguments (r : Registry) (owner : String) (arguments : List Schema.Input)
    (reserved : List String) (scope : Members) : Except Failure ArgumentPlan := do
  return .ofParams (← argumentParams r owner reserved scope arguments)

end Graphwright.Client
