import Graphwright.Code.Model

/-!
# The paths in generated code

The paths of other items that occur in a type, in a decoder and in the methods of an item. A type
made from a resolved reference has the path of its base and no other, however it is wrapped.
-/
namespace Graphwright.Code

def TypeExpr.paths : TypeExpr → List String
  | named path => [path]
  | list element => element.paths
  | nullable inner => inner.paths
  | hydrated inner => inner.paths
  | boxed inner => inner.paths
  | builtin _ => []
  | self => []
  | responseMap => []

def Decoder.paths : Decoder → List String
  | scalar _ => []
  | enumeration path => [path]
  | object path => [path]
  | customScalar path => [path]
  | list element => element.paths
  | nullable inner => inner.paths
  | boxed inner => inner.paths

mutual
def Expr.paths : Expr → List String
  | .field base _ => base.paths
  | .arguments entries => Expr.pathsInEntries entries
  | .toInput value => value.paths
  | .methodCall receiver _ args => receiver.paths ++ Expr.pathsInList args
  | .associatedCall _ args => Expr.pathsInList args
  | .construct fields => Expr.pathsInFields fields
  | .request _ _ args _ => args.paths
  | .send sent => sent.paths
  | .attempt value => value.paths
  | .borrow value => value.paths
  | .decode source _ decoder _ => source.paths ++ decoder.paths
  | .readHydrated _ _ type => type.paths
  | .success value => value.paths
  | .var _ => []
  | .self => []
  | .constant _ => []
  | .str _ => []
  | .unset => []
  | .delegate _ _ => []

def Expr.pathsInList : List Expr → List String
  | [] => []
  | e :: es => e.paths ++ Expr.pathsInList es

def Expr.pathsInEntries : List (Expr × Expr) → List String
  | [] => []
  | (key, value) :: entries => key.paths ++ value.paths ++ Expr.pathsInEntries entries

def Expr.pathsInFields : List (String × Expr) → List String
  | [] => []
  | (_, value) :: fields => value.paths ++ Expr.pathsInFields fields
end

def Stmt.paths : Stmt → List String
  | bind _ _ value => value.paths
  | assign target value => target.paths ++ value.paths
  | insert map key value => map.paths ++ key.paths ++ value.paths
  | insertIfPresent map key _ => map.paths ++ key.paths
  | returnSelfIfAbsent _ => []
  | select selection field arguments _ => selection.paths ++ field.paths ++ arguments.paths
  | «return» value => value.paths

def Returns.type : Returns → TypeExpr
  | value type => type
  | fallible type => type
  | borrowed type => type

def Method.paths (m : Method) : List String :=
  m.params.flatMap (·.type.paths) ++ m.returns.type.paths ++ m.body.flatMap (·.paths)

/-- The paths in the types of an item and in its decoders. -/
def Artifact.valuePaths : Artifact → List String
  | customScalar => []
  | enumeration _ => []
  | inputObject cls => cls.methods.flatMap (·.paths)
  | outputObject properties methods conformances =>
    properties.flatMap (·.type.paths) ++ methods.flatMap (·.paths)
      ++ conformances.flatMap fun c => c.methods.flatMap (·.paths)
  | interface accessors => accessors.flatMap (·.paths)
  | fieldSelection cls => cls.methods.flatMap (·.paths)
  | service cls => cls.methods.flatMap (·.paths)

/-- The paths of the interfaces that an item implements. -/
def Artifact.interfacePaths : Artifact → List String
  | outputObject _ _ conformances => conformances.map (·.interface)
  | _ => []

attribute [simp] TypeExpr.paths Decoder.paths Expr.paths Expr.pathsInList Expr.pathsInEntries
  Expr.pathsInFields Stmt.paths Returns.type

/-! ## Types and decoders -/

@[simp] theorem TypeExpr.paths_nonNull (t : TypeExpr) : t.nonNull.paths = t.paths := by
  cases t <;> rfl

@[simp] theorem TypeExpr.paths_onHeap (t : TypeExpr) : t.onHeap.paths = t.paths := by
  cases t <;> rfl

theorem Decoder.paths_type (d : Decoder) : d.type.paths = d.paths := by
  induction d with
  | list element ih => exact ih
  | nullable inner ih => exact ih
  | boxed inner ih => exact ih
  | _ => rfl

@[simp] theorem Decoder.paths_onHeap (d : Decoder) : d.onHeap.paths = d.paths := by
  cases d <;> rfl

theorem Decoder.paths_ofResolved {context : String} {t : ResolvedType} {d : Decoder}
    (h : Decoder.ofResolved context t = .ok d) : d.paths = (TypeExpr.ofResolved t).paths := by
  rw [← Decoder.paths_type, Decoder.type_ofResolved h]

end Graphwright.Code
