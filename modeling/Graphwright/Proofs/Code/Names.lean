import Graphwright.Code.Model

/-!
# The names in generated code

The names of members, parameters and locals that occur in the methods of an item.
-/
namespace Graphwright.Code

mutual
def Expr.names : Expr → List String
  | .var name => [name]
  | .field base name => base.names ++ [name]
  | .constant name => [name]
  | .arguments entries => Expr.namesInEntries entries
  | .toInput value => value.names
  | .methodCall receiver method args => receiver.names ++ method :: Expr.namesInList args
  | .associatedCall function args => function :: Expr.namesInList args
  | .construct fields => Expr.namesInFields fields
  | .request _ _ args selection => args.names ++ selection.toList
  | .send sent => sent.names
  | .attempt value => value.names
  | .borrow value => value.names
  | .decode source _ _ _ => source.names
  | .readHydrated property _ _ => [property]
  | .delegate getter _ => [getter]
  | .success value => value.names
  | .self => []
  | .str _ => []
  | .unset => []

def Expr.namesInList : List Expr → List String
  | [] => []
  | e :: es => e.names ++ Expr.namesInList es

def Expr.namesInEntries : List (Expr × Expr) → List String
  | [] => []
  | (key, value) :: entries => key.names ++ value.names ++ Expr.namesInEntries entries

def Expr.namesInFields : List (String × Expr) → List String
  | [] => []
  | (name, value) :: fields => name :: value.names ++ Expr.namesInFields fields
end

def Stmt.names : Stmt → List String
  | bind name _ value => name :: value.names
  | assign target value => target.names ++ value.names
  | insert map key value => map.names ++ key.names ++ value.names
  | insertIfPresent map key param => map.names ++ key.names ++ [param]
  | returnSelfIfAbsent param => [param]
  | select selection field arguments nested =>
    selection.names ++ field.names ++ arguments.names ++ nested.toList
  | «return» value => value.names

def Method.signatureNames (m : Method) : List String := m.name :: m.params.map (·.name)

def Method.names (m : Method) : List String := m.signatureNames ++ m.body.flatMap (·.names)

/-- The names in an item besides its own. -/
def Artifact.names : Artifact → List String
  | customScalar => []
  | enumeration values => values.flatMap fun v => [v.constant, v.variant, v.accessor]
  | inputObject cls => cls.constants.map (·.name) ++ cls.methods.flatMap (·.names)
  | outputObject properties methods conformances =>
    properties.map (·.name) ++ methods.flatMap (·.names)
      ++ conformances.flatMap fun c => c.methods.flatMap (·.names)
  | interface accessors => accessors.flatMap (·.signatureNames)
  | fieldSelection cls => cls.constants.map (·.name) ++ cls.methods.flatMap (·.names)
  | service cls => cls.methods.flatMap (·.names)

/-! ## Lists -/

theorem Expr.forall_mem_namesInEntries {P : String → Prop} {entries : List (Expr × Expr)} :
    (∀ n ∈ namesInEntries entries, P n) ↔
      ∀ e ∈ entries, (∀ n ∈ e.1.names, P n) ∧ ∀ n ∈ e.2.names, P n := by
  induction entries with
  | nil => simp [namesInEntries]
  | cons e entries ih =>
      rw [namesInEntries, List.forall_mem_append, List.forall_mem_append, ih, List.forall_mem_cons]

theorem Expr.forall_mem_namesInFields {P : String → Prop} {fields : List (String × Expr)} :
    (∀ n ∈ namesInFields fields, P n) ↔
      ∀ f ∈ fields, P f.1 ∧ ∀ n ∈ f.2.names, P n := by
  induction fields with
  | nil => simp [namesInFields]
  | cons f fields ih =>
      rw [namesInFields, List.cons_append, List.forall_mem_cons, List.forall_mem_append, ih,
        List.forall_mem_cons, and_assoc]

end Graphwright.Code
