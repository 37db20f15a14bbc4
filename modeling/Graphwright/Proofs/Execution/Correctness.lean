import Graphwright.Generation
import Graphwright.Proofs.Execution.Items
import Graphwright.Proofs.Rust.Files
import Graphwright.Proofs.Schema.Names

/-!
# Generated decoders are correct

For a schema that a client is generated for, the decoder of every field of an output object and of
every operation reads exactly the response values that conform to its type. Lists keep their
elements in order, null becomes an absent value where it is accepted, and what an object leaves out
stays unset.
-/
namespace Graphwright.Execution

open Code (Model)

/-! ## Types of responses -/

/-- The type of a field of an output object or of an operation. -/
def IsResponseType (r : Registry) (type : Schema.TypeRef) : Prop :=
  (∃ t ∈ r.types, ∃ interfaces fields, t.definition.shape = .object interfaces fields ∧
    ∃ f ∈ fields, f.type = type) ∨
  ∃ kind, ∃ f ∈ r.operations kind, f.type = type

theorem ofResolved_context {context : String} {t : ResolvedType} {d : Code.Decoder}
    (h : Code.Decoder.ofResolved context t = .ok d) (context' : String) :
    Code.Decoder.ofResolved context' t = .ok d := by
  induction t generalizing d with
  | named isNullable target =>
      obtain ⟨d', hd', h⟩ := Outcome.bind_ok.mp h
      refine Outcome.bind_ok.mpr ⟨d', ?_, h⟩
      cases target with
      | builtin p => exact hd'
      | registered name category path => cases category <;> first | exact hd' | cases hd'
  | list isNullable element ih =>
      obtain ⟨d', hd', h⟩ := Outcome.bind_ok.mp h
      exact Outcome.bind_ok.mpr ⟨d', ih hd', h⟩

/-- A decoder is picked for a type, wherever it stands. -/
def HasDecoder (r : Registry) (type : Schema.TypeRef) (resolved : ResolvedType)
    (d : Code.Decoder) : Prop :=
  ∀ context, Client.resolveConcrete r type context = .ok resolved ∧
    Code.Decoder.ofResolved context resolved = .ok d

theorem hasDecoder_of_ok {r : Registry} {type : Schema.TypeRef} {context context' : String}
    {resolved : ResolvedType} {d : Code.Decoder}
    (hres : Client.resolveConcrete r type context = .ok resolved)
    (hd : Code.Decoder.ofResolved context' resolved = .ok d) : HasDecoder r type resolved d :=
  fun c => ⟨Client.resolveConcrete_context hres c, ofResolved_context hd c⟩

/-- A client has a decoder for every type of a response, if no type is substituted. -/
theorem exists_hasDecoder_of_models {r : Registry} {ms : List Model}
    (hs : ∀ t ∈ r.types, t.substitution = none) (h : Client.models r = .ok ms)
    {type : Schema.TypeRef} (ht : IsResponseType r type) : ∃ resolved d, HasDecoder r type resolved d := by
  rcases ht with ⟨t, ht, interfaces, fields, hshape, f, hf, rfl⟩ | ⟨kind, f, hf, rfl⟩
  · have hprimary : t ∈ Client.primary r .outputObject := by
      refine Client.mem_primary.mpr ⟨ht, ?_, ?_⟩
      · rw [RegisteredType.category, Schema.Definition.category, hshape]
        rfl
      · rw [RegisteredType.isSubstituted, hs t ht]
        rfl
    obtain ⟨item, _, hemit⟩ := Client.exists_item h .outputObject hprimary
    obtain ⟨members, _, hmem, _⟩ := Client.outputObject_ok hemit
    rw [hshape] at hmem
    replace hf : f ∈ members.map (·.field) := hmem.fields_eq.symm ▸ hf
    obtain ⟨m, hm, rfl⟩ := List.mem_map.mp hf
    obtain ⟨context, resolved, d, hres, hd, _⟩ := hmem.isEmitted m hm
    exact ⟨resolved, d, hasDecoder_of_ok hres hd⟩
  · obtain ⟨m, _, hemit⟩ := Client.exists_service h
    obtain ⟨members, hmembers, _⟩ := Client.service_members hemit
    obtain ⟨member, _, hmember⟩ :=
      Outcome.mem_of_forall₂ hmembers.for_operations _ (Client.mem_operations.mpr hf)
    obtain ⟨_, resolved, d, _, hres, hd, _⟩ := Client.operationMember_ok hmember
    exact ⟨resolved, d, hasDecoder_of_ok hres hd⟩

theorem exists_hasDecoder {home : Namespace} {r : Registry} {ms : List Model}
    (hP : Program.Implements ⟨home, ms⟩ r) (h : Client.models r = .ok ms) {type : Schema.TypeRef}
    (ht : IsResponseType r type) : ∃ resolved d, HasDecoder r type resolved d :=
  exists_hasDecoder_of_models hP.unsubstituted h ht

/-! ## Decoding -/

/-- For every type of a response there is a decoder, all that it refers to is there, and it reads
exactly the values that conform to the type. -/
def DecodesResponses (r : Registry) (P : Program) : Prop :=
  ∀ type, IsResponseType r type → ∀ context, ∃ resolved d,
    Client.resolveConcrete r type context = .ok resolved ∧
    Code.Decoder.ofResolved context resolved = .ok d ∧ P.Binds d ∧
    ∀ v, ((∃ w, run P d v = .ok w) ↔ Conforms r true type v) ∧
      ∀ w, run P d v = .ok w → Reads r true type v w

/-- The decoders that are generated for a schema without substitutions are correct. -/
theorem decodesResponses_of_generate {options : Options} {text : String}
    {files : List GeneratedFile} {warnings : List Warning}
    (h : generate options text = .ok (files, warnings)) (hs : options.substitutions = []) :
    ∃ r ms, registryOfText options.home [] text = .ok (r, warnings) ∧ Client.models r = .ok ms ∧
      DecodesResponses r ⟨options.home, ms⟩ := by
  obtain ⟨r, ms, hr, hms, hfiles⟩ := generate_ok h
  rw [hs] at hr
  obtain ⟨document, _, found, _, hbuild⟩ := registryOfText_ok hr
  have hw := Registry.wellFormed_of_build hbuild
  have hP := implements_of_models hw (Registry.unsubstituted_of_build hbuild) hms hfiles
  refine ⟨r, ms, hr, hms, fun type ht context => ?_⟩
  obtain ⟨resolved, d, hdecoder⟩ := exists_hasDecoder hP hms ht
  obtain ⟨hres, hd⟩ := hdecoder context
  obtain ⟨hlayer, hbase⟩ := Client.resolveConcrete_ok.mp hres
  refine ⟨resolved, d, hres, hd, binds hP hbase hd, fun v => ?_⟩
  have hagrees : Agrees r ⟨options.home, ms⟩ true type d v := agrees hw hP v hlayer hbase hd
  refine ⟨⟨?_, hagrees.complete⟩, hagrees.sound⟩
  rintro ⟨w, hrun⟩
  exact (hagrees.sound w hrun).conforms

/-- A schema with a list and an object that holds itself. -/
def twins : String := "type Query \x7b a: [T!] \x7d type T \x7b t: T \x7d"

def twinsClient : { out // generate .standard twins = .ok out } :=
  Outcome.get _ (by decide +kernel)

theorem decodesResponses_of_generate_twins : ∃ files warnings r ms,
    generate .standard twins = .ok (files, warnings) ∧ Options.standard.substitutions = [] ∧
    registryOfText .default [] twins = .ok (r, warnings) ∧ Client.models r = .ok ms ∧
    DecodesResponses r ⟨.default, ms⟩ := by
  obtain ⟨⟨files, warnings⟩, h⟩ := twinsClient
  obtain ⟨r, ms, hr, hms, hdecodes⟩ := decodesResponses_of_generate h rfl
  exact ⟨files, warnings, r, ms, h, rfl, hr, hms, hdecodes⟩

end Graphwright.Execution
