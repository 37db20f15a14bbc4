import Graphwright.Proofs.Client.Coverage
import Graphwright.Proofs.Client.Enumeration
import Graphwright.Proofs.Registry.Namespaces
import Graphwright.Proofs.Rust.Spelling

/-!
# What the names of a schema must be like

The items of a client can be spelled exactly if a letter comes first among the letters and digits of
the names that become identifiers of their own: those of types, fields, arguments and enum values.
Where something else stands in front or behind, less is asked for.
-/
namespace Graphwright

open Text (IsPlain LeadsWithLetter NoLeadingDigit)

/-! ## Names of the query language -/

namespace Schema

theorem isPlain_of_isName {name : String} (h : IsName name) : IsPlain name := by
  have hcontinue : ∀ c, Lexeme.isNameContinue c = true → c.isAlphanum = true ∨ c = '_' :=
    fun c hc => (Bool.or_eq_true_iff.mp hc).imp_right of_decide_eq_true
  obtain ⟨c, cs, e, hc, hcs⟩ := h
  rw [IsPlain, e]
  exact List.forall_mem_cons.mpr
    ⟨hcontinue c (Lexeme.isNameContinue_of_isNameStart hc), fun d hd => hcontinue d (hcs d hd)⟩

theorem isIdentifier_capitalize {name : String} (h : IsName name) :
    Text.isIdentifier (Text.capitalize name).toList = true := by
  have hplain := isPlain_of_isName h
  obtain ⟨c, cs, e, hc, hcs⟩ := h
  rcases Text.capitalize_cases hplain with ⟨hnil, _⟩ | ⟨d, ds, hcons, hcapital⟩
  · rw [e] at hnil
    cases hnil
  · cases e.symm.trans hcons
    have hall := Text.isPlain_capitalize hplain
    rw [IsPlain, hcapital] at hall
    obtain ⟨hfirst, hrest⟩ := List.forall_mem_cons.mp hall
    have hstart : (c.toUpper.isAlpha || decide (c.toUpper = '_')) = true := by
      rcases Bool.or_eq_true_iff.mp hc with hc | hc
      · rw [Char.isAlpha_toUpper_eq_isAlpha, hc, Bool.true_or]
      · rw [of_decide_eq_true hc]
        rfl
    rw [hcapital, Text.isIdentifier, Text.isIdentifierStart_of_plain hfirst, hstart,
      List.all_eq_true.mpr fun d hd => Text.isIdentifierContinue_of_plain (hrest d hd)]
    rfl

end Schema

/-! ## Spellings -/

namespace Rust

section

variable {s : String}

theorem canSpell_iff (h : IsPlain s) : CanSpell s ↔ Text.isIdentifier s.toList = true :=
  canSpell_iff_of_not_mem fun hmem => absurd (h '#' hmem) (by decide)

theorem canSpell_snakeCase (h : IsPlain s) : CanSpell (Text.snakeCase s) ↔ LeadsWithLetter s :=
  (canSpell_iff (Text.isPlain_snakeCase h)).trans (Text.isIdentifier_snakeCase h)

theorem canSpell_shoutyCase (h : IsPlain s) : CanSpell (Text.shoutyCase s) ↔ LeadsWithLetter s :=
  (canSpell_iff (Text.isPlain_shoutyCase h)).trans (Text.isIdentifier_shoutyCase h)

theorem canSpell_upperCamelCase (h : IsPlain s) :
    CanSpell (Text.upperCamelCase s) ↔ LeadsWithLetter s :=
  (canSpell_iff (Text.isPlain_upperCamelCase h)).trans (Text.isIdentifier_upperCamelCase h)

theorem canSpell_append {t : String} (hs : IsPlain s) (hi : Text.isIdentifier s.toList = true)
    (ht : IsPlain t) : CanSpell (s ++ t) :=
  (canSpell_iff (hs.append ht)).mpr (Text.isIdentifier_append hi ht)

theorem canSpell_moduleName (h : IsPlain s) : CanSpell (moduleName s) ↔ LeadsWithLetter s := by
  unfold moduleName
  dsimp only
  split
  · rename_i hkeyword
    obtain ⟨hsnake, hescaped⟩ := canSpell_pathKeywords _ hkeyword
    exact iff_of_true hescaped ((canSpell_snakeCase h).mp hsnake)
  · exact canSpell_snakeCase h

end

/-- The names of an item and of its module can be spelled. -/
def IsSpellable (item : Code.Model) : Prop :=
  CanSpell (moduleName item.name) ∧ ∀ n ∈ itemNames item, CanSpell n

end Rust

namespace Client

open Code
open Rust (CanSpell IsSpellable canSpell_iff canSpell_append canSpell_snakeCase canSpell_shoutyCase
  canSpell_upperCamelCase canSpell_moduleName)

/-! ## Items of types -/

theorem isSpellable_primaryModel {t : RegisteredType} (ht : Schema.IsName t.name)
    (dependencies : Dependencies) (artifact : Artifact) :
    IsSpellable (primaryModel t dependencies artifact) ↔
      LeadsWithLetter t.name ∧ ∀ n ∈ artifact.names, CanSpell n := by
  have hplain := Text.isPlain_capitalize (Schema.isPlain_of_isName ht)
  have hname := Schema.isIdentifier_capitalize ht
  have hdefined : ∀ n ∈ Rust.definedNames (primaryModel t dependencies artifact), CanSpell n := by
    refine List.forall_mem_cons.mpr ⟨(canSpell_iff hplain).mpr hname, ?_⟩
    split
    · exact List.forall_mem_singleton.mpr (canSpell_append hplain hname (by simp [IsPlain]))
    · exact List.forall_mem_nil _
  rw [IsSpellable, Rust.itemNames, List.forall_mem_append, and_iff_right hdefined]
  exact and_congr_left' ((canSpell_moduleName hplain).trans
    (Text.leadsWithLetter_capitalize (Schema.isPlain_of_isName ht)))

theorem canSpell_enumValue {v : Schema.EnumValue} (hv : IsPlain v.name) :
    (CanSpell (enumValue v).constant ∧ CanSpell (enumValue v).variant ∧
      CanSpell (enumValue v).accessor) ↔ LeadsWithLetter v.name := by
  constructor
  · exact fun h => (canSpell_shoutyCase hv).mp h.1
  · intro h
    refine ⟨(canSpell_shoutyCase hv).mpr h, ?_, (canSpell_snakeCase hv).mpr h⟩
    rw [variant_eq]
    split
    · exact canSpell_append (Text.isPlain_upperCamelCase hv)
        ((Text.isIdentifier_upperCamelCase hv).mpr h) (by simp [IsPlain])
    · exact (canSpell_upperCamelCase hv).mpr h

theorem canSpell_enumeration {values : List Schema.EnumValue}
    (hv : ∀ v ∈ values, IsPlain v.name) :
    (∀ n ∈ (Artifact.enumeration (values.map enumValue)).names, CanSpell n) ↔
      ∀ v ∈ values, LeadsWithLetter v.name := by
  rw [Artifact.names, List.forall_mem_flatMap, List.forall_mem_map]
  refine forall₂_congr fun v hmem => ?_
  rw [← canSpell_enumValue (hv v hmem)]
  simp

/-! ## Fields -/

/-- The names in the body of a constructor are those of its members. -/
theorem forall_names_constructed {P : String → Prop} {ms : List InputMember} (hs : P inputStore)
    (hm : ∀ m ∈ ms, P m.setterName ∧ P m.param ∧ P m.constant) :
    ∀ n ∈ (constructed ms).names, P n := by
  have hsetters : ∀ (optional : List InputMember) (object : Expr), (∀ m ∈ optional, m ∈ ms) →
      (∀ n ∈ object.names, P n) → ∀ n ∈ (optional.foldl
        (fun object m => .methodCall object m.setterName [.var m.param]) object).names, P n := by
    intro optional
    induction optional with
    | nil => exact fun _ _ h => h
    | cons m optional ih =>
        intro object hsub h
        obtain ⟨hfirst, hrest⟩ := List.forall_mem_cons.mp hsub
        refine ih _ hrest ?_
        simpa [Expr.names, Expr.namesInList, or_imp, forall_and, hm m hfirst] using h
  refine hsetters _ _ (fun m h => List.mem_of_mem_filter h) ?_
  rw [Expr.names, Expr.forall_mem_namesInFields, List.forall_mem_singleton, Expr.names,
    Expr.forall_mem_namesInEntries, List.forall_mem_map]
  refine ⟨hs, fun m h => ?_⟩
  obtain ⟨_, hparam, hconstant⟩ := hm m (List.mem_of_mem_filter h)
  simpa [InputMember.entry, Expr.names] using ⟨hconstant, hparam⟩

theorem canSpell_inputClass {r : Registry} {fields : List Schema.Input} {ms : List InputMember}
    (h : InputMembers r fields ms) (hf : ∀ f ∈ fields, IsPlain f.name) :
    (∀ n ∈ (Artifact.inputObject (inputClass fields ms)).names, CanSpell n) ↔
      ∀ f ∈ fields, LeadsWithLetter f.name := by
  constructor
  · intro hall f hmem
    refine (canSpell_shoutyCase (hf f hmem)).mp (hall _ (List.mem_append_left _ ?_))
    exact List.mem_map.mpr ⟨_, List.mem_map_of_mem hmem, rfl⟩
  · intro hall
    have hmember : ∀ m ∈ ms, CanSpell m.setterName ∧ CanSpell m.param ∧ CanSpell m.constant := by
      intro m hm
      obtain ⟨f, hmem, hfor⟩ := Outcome.mem_of_forall₂ h.for_fields m hm
      rw [mem_constructorOrder] at hmem
      have hplain := hf f hmem
      rw [InputMember.setterName, hfor.param, hfor.constant]
      exact ⟨canSpell_append (by simp [IsPlain]) (by decide) (Text.isPlain_snakeCase hplain),
        (canSpell_snakeCase hplain).mpr (hall f hmem),
        (canSpell_shoutyCase hplain).mpr (hall f hmem)⟩
    have hstore : CanSpell inputStore := by decide
    refine List.forall_mem_append.mpr ⟨?_, List.forall_mem_flatMap.mpr
      (List.forall_mem_cons.mpr ⟨?_, List.forall_mem_map.mpr fun m hm => ?_⟩)⟩
    · simp only [inputClass, List.map_map, List.forall_mem_map]
      exact fun f hmem => (canSpell_shoutyCase (hf f hmem)).mpr (hall f hmem)
    · have hnew : CanSpell "new" := by decide
      have hbody := forall_names_constructed hstore hmember
      simp only [Method.names, Method.signatureNames, inputConstructor, List.map_map,
        List.flatMap_singleton, Stmt.names, List.forall_mem_append, List.forall_mem_cons,
        List.forall_mem_map]
      exact ⟨⟨hnew, fun m hm => (hmember m hm).2.1⟩, hbody⟩
    · obtain ⟨hsetter, hparam, hconstant⟩ := hmember m (List.mem_of_mem_filter hm)
      simp [Method.names, Method.signatureNames, InputMember.setter, Stmt.names, Expr.names, hsetter,
        hparam, hconstant, hstore]

/-! ## Arguments -/

/-- A parameter that gets out of the way of a local has a name all the more. -/
theorem canSpell_paramName {reserved : List String} {name : String}
    (hr : ∀ w ∈ reserved, Text.isIdentifier w.toList = true) (h : IsPlain name) :
    CanSpell (paramName reserved name) ↔ LeadsWithLetter name := by
  unfold paramName
  split
  · rename_i hmem
    have hname := hr _ hmem
    exact iff_of_true (canSpell_append (Text.isPlain_snakeCase h) hname (by simp [IsPlain]))
      ((Text.isIdentifier_snakeCase h).mp hname)
  · exact canSpell_snakeCase h

/-- What a method needs for its arguments is that the parameters can be spelled. -/
theorem forall_names_plan {P : String → Prop} {as : List ArgumentParam} (hl : P argumentsLocal)
    (h : ∀ a ∈ as, P a.param) :
    (∀ n ∈ (ArgumentPlan.ofParams as).params.map (·.name), P n) ∧
      (∀ n ∈ (ArgumentPlan.ofParams as).setup.flatMap (·.names), P n) ∧
      ∀ n ∈ (ArgumentPlan.ofParams as).map.names, P n := by
  have hliteral : ∀ n ∈ (Expr.arguments ((as.filter (!·.isOptional)).map (·.entry))).names, P n := by
    rw [Expr.names, Expr.forall_mem_namesInEntries, List.forall_mem_map]
    exact fun a ha => by simpa [ArgumentParam.entry, Expr.names] using h a (List.mem_of_mem_filter ha)
  simp only [ArgumentPlan.ofParams]
  refine ⟨by simpa [ArgumentParam.toParam] using h, ?_, ?_⟩
  · split
    · exact List.forall_mem_nil _
    · rw [List.forall_mem_flatMap, List.forall_mem_cons, List.forall_mem_map]
      refine ⟨List.forall_mem_cons.mpr ⟨hl, hliteral⟩, fun a ha => ?_⟩
      simpa [Stmt.names, Expr.names] using ⟨hl, h a (List.mem_of_mem_filter ha)⟩
  · split
    · exact hliteral
    · simpa [Expr.names] using hl

theorem canSpell_params {r : Registry} {reserved : List String} {inputs : List Schema.Input}
    {as : List ArgumentParam} (h : Planned r reserved inputs as)
    (hr : ∀ w ∈ reserved, Text.isIdentifier w.toList = true)
    (hi : ∀ i ∈ inputs, IsPlain i.name) :
    (∀ a ∈ as, CanSpell a.param) ↔ ∀ i ∈ inputs, LeadsWithLetter i.name := by
  have hnames : (∀ n ∈ as.map (·.param), CanSpell n) ↔
      ∀ n ∈ inputs.map (paramName reserved ·.name), CanSpell n := by rw [h.names]
  rw [List.forall_mem_map, List.forall_mem_map] at hnames
  exact hnames.trans (forall₂_congr fun i hmem => canSpell_paramName hr (hi i hmem))

theorem canSpell_nested (builder : Option String) :
    (∀ p ∈ (builder.map nestedParam).toList, CanSpell p.name) ∧
      ∀ n ∈ (builder.map fun _ => selectionParam).toList, CanSpell n := by
  have hselection : CanSpell selectionParam := by decide
  cases builder with
  | none => simp
  | some path => simpa [nestedParam] using hselection

/-- Besides the name of its constant and its parameters a method has nothing that could not be
spelled. -/
theorem canSpell_selectionMember {r : Registry} {own : String} {member : SelectionMember}
    {f : Schema.Field} (h : member.For r own f) (hf : f.IsNamed) :
    (∀ n ∈ member.constant.name :: member.method.names, CanSpell n) ↔
      LeadsWithLetter f.name ∧ ∀ i ∈ f.arguments, LeadsWithLetter i.name := by
  obtain ⟨_, resolved, as, _, hplanned, rfl⟩ := h
  have hplain := Schema.isPlain_of_isName hf.1
  have hparams := canSpell_params hplanned (by decide)
    fun i hi => Schema.isPlain_of_isName (hf.2.1 i hi).1
  constructor
  · intro hall
    obtain ⟨hconstant, hmethod⟩ := List.forall_mem_cons.mp hall
    refine ⟨(canSpell_shoutyCase hplain).mp hconstant, hparams.mp fun a ha => hmethod _ ?_⟩
    refine List.mem_append_left _ (List.mem_cons_of_mem _ (List.mem_map.mpr ⟨a.toParam, ?_, rfl⟩))
    exact List.mem_append_right _ (List.mem_map_of_mem ha)
  · rintro ⟨hletter, harguments⟩
    have hstore : CanSpell selectionStore := by decide
    have hname : CanSpell ("with_" ++ memberName f.name) :=
      canSpell_append (by simp [IsPlain]) (by decide) (Text.isPlain_snakeCase hplain)
    have hconstant := (canSpell_shoutyCase hplain).mpr hletter
    obtain ⟨hps, hsetup, hmap⟩ := forall_names_plan (P := CanSpell) (by decide)
      (hparams.mpr harguments)
    obtain ⟨hnested, hselection⟩ :=
      canSpell_nested ((selectedObject? resolved).map r.home.selectionPath)
    refine List.forall_mem_cons.mpr ⟨hconstant, List.forall_mem_append.mpr
      ⟨List.forall_mem_cons.mpr ⟨hname, List.forall_mem_map.mpr (List.forall_mem_append.mpr
        ⟨hnested, List.forall_mem_map.mp hps⟩)⟩, ?_⟩⟩
    rw [selectionMember, List.flatMap_append, List.forall_mem_append]
    refine ⟨hsetup, ?_⟩
    simp only [List.flatMap_cons, List.flatMap_nil, Stmt.names, Expr.names, List.nil_append,
      List.append_nil, List.forall_mem_append, List.forall_mem_singleton]
    exact ⟨⟨⟨hstore, hconstant⟩, hmap⟩, hselection⟩

theorem canSpell_builderClass {r : Registry} {t : RegisteredType} {ms : List SelectionMember}
    (h : SelectionMembers r t ms)
    (hf : ∀ f ∈ Registry.fieldsOf t.definition.shape, f.IsNamed) :
    (∀ n ∈ (Artifact.fieldSelection (builderClass ms)).names, CanSpell n) ↔
      ∀ f ∈ Registry.fieldsOf t.definition.shape,
        LeadsWithLetter f.name ∧ ∀ i ∈ f.arguments, LeadsWithLetter i.name := by
  rw [← Outcome.forall_mem_iff_of_forall₂ h.for_fields
    fun m f hmem hfor => canSpell_selectionMember hfor (hf f hmem)]
  simp only [Artifact.names, builderClass, List.forall_mem_append, List.forall_mem_map,
    List.forall_mem_flatMap, List.forall_mem_cons, forall_and]

theorem canSpell_operationMember {r : Registry} {service : String} {kind : OperationKind}
    {f : Schema.Field} {member : ServiceMember}
    (h : operationMember r service kind f = .ok member) (hf : f.IsNamed) :
    (∀ n ∈ member.method.names, CanSpell n) ↔ ∀ i ∈ f.arguments, LeadsWithLetter i.name := by
  obtain ⟨_, resolved, d, as, _, _, hplanned, rfl⟩ := operationMember_ok h
  have hparams := canSpell_params hplanned (by decide)
    fun i hi => Schema.isPlain_of_isName (hf.2.1 i hi).1
  constructor
  · refine fun hall => hparams.mp fun a ha => hall _ ?_
    refine List.mem_append_left _ (List.mem_cons_of_mem _ (List.mem_map.mpr ⟨a.toParam, ?_, rfl⟩))
    exact List.mem_append_right _ (List.mem_map_of_mem ha)
  · intro harguments
    have hlocals : CanSpell requestLocal ∧ CanSpell responseLocal := by decide
    have hname : CanSpell (kind.text ++ "_" ++ memberName f.name) := by
      cases kind <;> exact canSpell_append (by simp [IsPlain, OperationKind.text]) (by decide)
        (Text.isPlain_snakeCase (Schema.isPlain_of_isName hf.1))
    obtain ⟨hps, hsetup, hmap⟩ := forall_names_plan (P := CanSpell) (by decide)
      (hparams.mpr harguments)
    obtain ⟨hnested, hselection⟩ :=
      canSpell_nested ((selectedObject? resolved).map r.home.selectionPath)
    refine List.forall_mem_append.mpr
      ⟨List.forall_mem_cons.mpr ⟨hname, List.forall_mem_map.mpr (List.forall_mem_append.mpr
        ⟨hnested, List.forall_mem_map.mp hps⟩)⟩, ?_⟩
    rw [serviceMember, List.flatMap_append, List.forall_mem_append]
    refine ⟨hsetup, ?_⟩
    simp only [List.flatMap_cons, List.flatMap_nil, Stmt.names, Expr.names, List.cons_append,
      List.nil_append, List.append_nil, List.forall_mem_append, List.forall_mem_cons]
    exact ⟨hlocals.1, ⟨hmap, hselection⟩, hlocals.2, hlocals.1, hlocals.2, List.forall_mem_nil _⟩

/-! ## Interfaces and output objects -/

theorem flatMap_signatureNames_accessors {r : Registry} {fields : List Schema.Field}
    {found : List (Method × Option String)} (h : List.Forall₂ (IsAccessor r) found fields) :
    (found.map (·.1)).flatMap (·.signatureNames) = fields.map (memberName ·.name) := by
  have hnames : found.map (·.1.signatureNames) = fields.map fun f => [memberName f.name] := by
    refine Outcome.map_eq_of_forall₂ h ?_
    rintro _ _ f ⟨_, _, _, rfl⟩
    rfl
  rw [List.flatMap_map, List.map_eq_flatMap, List.flatMap_def, List.flatMap_def, hnames]

theorem canSpell_members {fields : List Schema.Field} (hf : ∀ f ∈ fields, f.IsNamed) :
    (∀ n ∈ fields.map (memberName ·.name), CanSpell n) ↔ ∀ f ∈ fields, LeadsWithLetter f.name := by
  rw [List.forall_mem_map]
  exact forall₂_congr fun f hmem => canSpell_snakeCase (Schema.isPlain_of_isName (hf f hmem).1)

theorem IsConforming.exists_name {r : Registry} {own : List Schema.Field} {method : Method}
    {required : Schema.Field} (h : IsConforming r own method required) :
    ∀ n ∈ method.names, ∃ f ∈ own, n = memberName f.name := by
  obtain ⟨field, _, _, widened, hfield, _, _, _, rfl⟩ := h
  have hname : field.name = required.name := by simpa using List.find?_some hfield
  refine fun n hn => ⟨field, List.mem_of_find?_eq_some hfield, ?_⟩
  rw [hname]
  simpa [Method.names, Method.signatureNames, borrowing, Stmt.names, Expr.names] using hn

theorem forall_names_initializer {P : String → Prop} {ms : List OutputMember}
    (hi : P initializerName) (h : ∀ m ∈ ms, P m.name) : ∀ n ∈ (initializer ms).names, P n := by
  refine List.forall_mem_append.mpr ⟨List.forall_mem_singleton.mpr hi, ?_⟩
  refine List.forall_mem_flatMap.mpr (List.forall_mem_singleton.mpr ?_)
  rw [Stmt.names, Expr.names, Expr.forall_mem_namesInFields, List.forall_mem_map]
  exact fun m hm => ⟨h m hm, List.forall_mem_nil _⟩

theorem forall_names_factory {P : String → Prop} {owner : String} {ms : List OutputMember}
    (hfactory : P factoryName) (hfields : P fieldsParam) (hobject : P objectLocal)
    (hinitializer : P initializerName) (h : ∀ m ∈ ms, P m.name) :
    ∀ n ∈ (factory owner ms).names, P n := by
  refine List.forall_mem_append.mpr ⟨?_, ?_⟩
  · simpa [Method.signatureNames, factory] using ⟨hfactory, hfields⟩
  · have hhydrate : ∀ n ∈ (ms.map (·.hydrate)).flatMap (·.names), P n := by
      rw [List.forall_mem_flatMap, List.forall_mem_map]
      intro m hm
      simpa [OutputMember.hydrate, Stmt.names, Expr.names] using ⟨hobject, h m hm, hfields⟩
    refine List.forall_mem_flatMap.mpr (List.forall_mem_append.mpr ⟨List.forall_mem_cons.mpr
      ⟨?_, List.forall_mem_flatMap.mp hhydrate⟩, List.forall_mem_singleton.mpr ?_⟩)
    · simpa [Stmt.names, Expr.names, Expr.namesInList] using ⟨hobject, hinitializer⟩
    · simpa [Stmt.names, Expr.names] using hobject

theorem canSpell_outputObject {r : Registry} {t : RegisteredType} {m : Model}
    (h : EmittedObject r t m) (ht : t.definition.IsNamed) :
    (∀ n ∈ m.artifact.names, CanSpell n) ↔
      ∀ f ∈ Registry.fieldsOf t.definition.shape, LeadsWithLetter f.name := by
  obtain ⟨members, conformances, hmembers, hconf, rfl⟩ := h
  have hmembersNames : members.map (·.name) =
      (Registry.fieldsOf t.definition.shape).map (memberName ·.name) := by
    rw [← hmembers.fields_eq, List.map_map]
    exact List.map_congr_left fun m hm => (hmembers.isEmitted m hm).name_eq
  have hiff := canSpell_members ht.2.of_mem_fieldsOf
  rw [← hmembersNames, List.forall_mem_map] at hiff
  rw [← hiff]
  simp only [outputModel, primaryModel, objectMethods, Artifact.names, List.forall_mem_append,
    List.map_map, List.forall_mem_map, List.forall_mem_flatMap]
  constructor
  · exact fun hall m hm => hall.1.1 m hm
  · intro hall
    refine ⟨⟨fun m hm => hall m hm, ?_⟩, ?_⟩
    · have hfixed : CanSpell initializerName ∧ CanSpell factoryName ∧ CanSpell fieldsParam ∧
          CanSpell objectLocal := by decide
      refine ⟨List.forall_mem_cons.mpr ⟨?_, List.forall_mem_map.mpr fun m hm => ?_⟩,
        List.forall_mem_singleton.mpr ?_⟩
      · exact forall_names_initializer hfixed.1 hall
      · simpa [Method.names, Method.signatureNames, OutputMember.getter, borrowing, Stmt.names,
          Expr.names] using hall m hm
      · exact forall_names_factory hfixed.2.1 hfixed.2.2.1 hfixed.2.2.2 hfixed.1 hall
    · intro c hc method hmethod n hn
      obtain ⟨_, _, _, hmethods⟩ := conformances_conforming hconf c hc
      obtain ⟨_, _, hconforming⟩ := Outcome.mem_of_forall₂ hmethods method hmethod
      obtain ⟨f, hf, rfl⟩ := hconforming.exists_name n hn
      have hmem : memberName f.name ∈ members.map (·.name) :=
        hmembersNames ▸ List.mem_map_of_mem hf
      obtain ⟨m, hm, e⟩ := List.mem_map.mp hmem
      exact e ▸ hall m hm

/-! ## Emitted items -/

section

variable {r : Registry} {t : RegisteredType} {m : Model}

theorem isSpellable_enumeration (ht : t.definition.IsNamed)
    (h : enumeration t (valuesOf t.definition.shape) = .ok m) :
    IsSpellable m ↔ LeadsWithLetter t.name ∧
      ∀ v ∈ valuesOf t.definition.shape, LeadsWithLetter v.name := by
  obtain ⟨_, rfl, _⟩ := enumeration_ok h
  rw [isSpellable_primaryModel ht.1, canSpell_enumeration fun v hv =>
    Schema.isPlain_of_isName (isName_of_mem_valuesOf ht.2 v hv)]

theorem isName_of_mem_inputsOf {shape : Schema.Shape} (h : shape.IsNamed) :
    ∀ f ∈ inputsOf shape, Schema.IsName f.name := by
  cases shape with
  | inputObject fields => exact fun f hf => (h f hf).1
  | _ => exact List.forall_mem_nil _

theorem isSpellable_inputObject (ht : t.definition.IsNamed)
    (h : inputObject r t (inputsOf t.definition.shape) = .ok m) :
    IsSpellable m ↔ LeadsWithLetter t.name ∧
      ∀ f ∈ inputsOf t.definition.shape, LeadsWithLetter f.name := by
  obtain ⟨ms, hms, hartifact⟩ := inputObject_members h
  obtain ⟨_, _, h⟩ := Outcome.bind_ok.mp h
  obtain ⟨_, _, h⟩ := Outcome.bind_ok.mp h
  cases h
  rw [isSpellable_primaryModel ht.1, ← canSpell_inputClass hms fun f hf =>
    Schema.isPlain_of_isName (isName_of_mem_inputsOf ht.2 f hf), ← hartifact]
  rfl

theorem isSpellable_interface (ht : t.definition.IsNamed)
    (h : Client.interface r t (Registry.fieldsOf t.definition.shape) = .ok m) :
    IsSpellable m ↔ LeadsWithLetter t.name ∧
      ∀ f ∈ Registry.fieldsOf t.definition.shape, LeadsWithLetter f.name := by
  obtain ⟨found, hfound, h⟩ := Outcome.bind_ok.mp h
  cases h
  rw [isSpellable_primaryModel ht.1, Artifact.names,
    flatMap_signatureNames_accessors (accessors_ok hfound).1, canSpell_members ht.2.of_mem_fieldsOf]

theorem isSpellable_outputObject (ht : t.definition.IsNamed)
    (h : Client.outputObject r t (interfacesOf t.definition.shape)
      (Registry.fieldsOf t.definition.shape) = .ok m) :
    IsSpellable m ↔ LeadsWithLetter t.name ∧
      ∀ f ∈ Registry.fieldsOf t.definition.shape, LeadsWithLetter f.name := by
  have hemitted := outputObject_ok h
  rw [← canSpell_outputObject hemitted ht]
  obtain ⟨_, _, _, _, rfl⟩ := hemitted
  exact isSpellable_primaryModel ht.1 _ _

theorem isSpellable_selectionBuilder (ht : t.definition.IsNamed)
    (h : Client.selectionBuilder r t = .ok m) :
    IsSpellable m ↔ NoLeadingDigit t.name ∧ ∀ f ∈ Registry.fieldsOf t.definition.shape,
      LeadsWithLetter f.name ∧ ∀ i ∈ f.arguments, LeadsWithLetter i.name := by
  obtain ⟨ms, hms, hartifact, _⟩ := selectionBuilder_members h
  have hplain := Schema.isPlain_of_isName ht.1
  have hcapital := Text.isPlain_capitalize hplain
  have hsuffix : IsPlain "FieldSelection" := by simp [IsPlain]
  have hname : CanSpell (builderName t.name) :=
    canSpell_append hcapital (Schema.isIdentifier_capitalize ht.1) hsuffix
  have hmodule : CanSpell (Rust.moduleName (builderName t.name)) ↔ NoLeadingDigit t.name :=
    (canSpell_moduleName (hcapital.append hsuffix)).trans
      ((Text.leadsWithLetter_append (by decide)).trans (Text.noLeadingDigit_capitalize hplain))
  rw [← hmodule, ← canSpell_builderClass hms ht.2.of_mem_fieldsOf, ← hartifact]
  obtain ⟨_, _, h⟩ := Outcome.bind_ok.mp h
  cases h
  exact and_congr_right' (List.forall_mem_cons.trans (and_iff_right hname))

theorem isSpellable_service (hr : ∀ k, ∀ f ∈ r.operations k, f.IsNamed)
    (h : Client.service r = .ok m) :
    IsSpellable m ↔ NoLeadingDigit (lastSegment r.home.root) ∧
      ∀ k, ∀ f ∈ r.operations k, ∀ i ∈ f.arguments, LeadsWithLetter i.name := by
  have hplain := r.home.isPlain_lastSegment
  have hcamel := Text.isPlain_upperCamelCase hplain
  have hsuffix : IsPlain "Service" := by simp [IsPlain]
  have hname : CanSpell r.home.serviceName ↔ NoLeadingDigit (lastSegment r.home.root) :=
    (canSpell_iff (hcamel.append hsuffix)).trans
      (Text.isIdentifier_upperCamelCase_append hplain hsuffix (by decide))
  have hmodule : CanSpell (Rust.moduleName r.home.serviceName) ↔
      NoLeadingDigit (lastSegment r.home.root) :=
    (canSpell_moduleName (hcamel.append hsuffix)).trans
      ((Text.leadsWithLetter_append (by decide)).trans (Text.noLeadingDigit_upperCamelCase hplain))
  obtain ⟨members, hmembers, h⟩ := Outcome.bind_ok.mp h
  cases h
  have hmethods : (∀ n ∈ (members.map (·.method)).flatMap (·.names), CanSpell n) ↔
      ∀ k, ∀ f ∈ r.operations k, ∀ i ∈ f.arguments, LeadsWithLetter i.name := by
    have hall := (serviceMembers_ok hmembers).1.flip
    have hoperations : (∀ member ∈ members, ∀ n ∈ member.method.names, CanSpell n) ↔
        ∀ o ∈ operations r, ∀ i ∈ o.2.arguments, LeadsWithLetter i.name :=
      Outcome.forall_mem_iff_of_forall₂ hall fun member o ho h =>
        canSpell_operationMember h (hr o.1 o.2 (mem_operations.mp ho))
    rw [List.forall_mem_flatMap, List.forall_mem_map, hoperations]
    exact ⟨fun h k f hf => h (k, f) (mem_operations.mpr hf),
      fun h o ho => h o.1 o.2 (mem_operations.mp ho)⟩
  rw [← hmethods]
  constructor
  · rintro ⟨hfile, hnames⟩
    exact ⟨hmodule.mp hfile, (List.forall_mem_cons.mp hnames).2⟩
  · rintro ⟨hletter, hnames⟩
    exact ⟨hmodule.mpr hletter, List.forall_mem_cons.mpr ⟨hname.mpr hletter, hnames⟩⟩

end

end Client

/-! ## Schemas -/

/-- In every name that becomes an identifier of its own a letter comes first, underscores apart. -/
structure Registry.Spellable (r : Registry) : Prop where
  service : NoLeadingDigit (lastSegment r.home.root)
  types : ∀ t ∈ r.types, t.category ≠ .union → t.isSubstituted = false → LeadsWithLetter t.name
  builders : ∀ t ∈ Client.selectable r, NoLeadingDigit t.name
  values : ∀ t ∈ Client.primary r .enumeration, ∀ v ∈ Client.valuesOf t.definition.shape,
    LeadsWithLetter v.name
  inputs : ∀ t ∈ Client.primary r .inputObject, ∀ f ∈ Client.inputsOf t.definition.shape,
    LeadsWithLetter f.name
  accessors : ∀ t ∈ Client.primary r .interface, ∀ f ∈ Registry.fieldsOf t.definition.shape,
    LeadsWithLetter f.name
  fields : ∀ t ∈ Client.selectable r, ∀ f ∈ Registry.fieldsOf t.definition.shape,
    LeadsWithLetter f.name ∧ ∀ i ∈ f.arguments, LeadsWithLetter i.name
  arguments : ∀ k, ∀ f ∈ r.operations k, ∀ i ∈ f.arguments, LeadsWithLetter i.name

end Graphwright
