import GraphQL.Proofs.Lists
import GraphQL.Schema
import Mathlib.Data.List.Perm.Basic

/-! What a schema answers, read off its document: the first definition of a name, all extensions of
a name, the first root type of a kind. Hence the order of a document matters only among the
definitions of one name, the extensions of one name, and what is about the schema itself. -/
namespace GraphQL

namespace Definition

/-- The type that a definition defines, if it does. -/
def type? : Definition → Option TypeDefinition
  | type t => some t
  | _ => none

def typeExtension? : Definition → Option TypeExtension
  | typeExtension x => some x
  | _ => none

/-- The root types that a definition or an extension of the schema names. -/
def rootTypes : Definition → List RootType
  | schema x => x.rootTypes
  | schemaExtension x => x.rootTypes
  | _ => []

end Definition

namespace Document

/-- All definitions of types, in order. -/
def typeDefinitions (d : Document) : List TypeDefinition := d.definitions.filterMap (·.type?)

/-- The first definition of a type. -/
def typeDefinition? (d : Document) (name : String) : Option TypeDefinition :=
  d.typeDefinitions.find? (·.name.value == name)

/-- All extensions of a type, in order. -/
def extensionsOf (d : Document) (name : String) : List TypeExtension :=
  (d.definitions.filterMap (·.typeExtension?)).filter (·.name.value == name)

/-- The root types that are named, in order. -/
def rootTypes (d : Document) : List RootType := d.definitions.flatMap (·.rootTypes)

/-- The same definitions in another order, in which the definitions of one type, the extensions of
one type and all that is about the schema itself still follow each other as before. -/
structure Reorders (d d' : Document) : Prop where
  definitions : d.definitions.Perm d'.definitions
  types : ∀ name, d.typeDefinitions.filter (·.name.value == name) =
    d'.typeDefinitions.filter (·.name.value == name)
  extensions : ∀ name, d.extensionsOf name = d'.extensionsOf name
  schema : d.definitions.filter DocumentSchema.isAboutSchema =
    d'.definitions.filter DocumentSchema.isAboutSchema

end Document

namespace DocumentSchema

/-- The answers of a schema are those of a document, read without any order of reading. -/
structure Reads (s : DocumentSchema) (d : Document) : Prop where
  type : ∀ name, s.type? name =
    match d.typeDefinition? name with
    | some t => some (.defined t)
    | none => (BuiltInScalar.ofName? name).map .builtIn
  names : s.typeNames = (d.typeDefinitions.map (·.name.value)).eraseDups
  extensions : ∀ name, s.extensionsOf name =
    if (d.typeDefinition? name).isSome then d.extensionsOf name else []
  fields : ∀ name, s.fieldsOf name =
    match d.typeDefinition? name with
    | some t => t.body.outputFields ++ (d.extensionsOf name).flatMap (·.body.outputFields)
    | none => []
  field : ∀ parent name, s.field? parent name =
    (s.fieldsOf parent.core.name).find? (·.name.value == name)
  root : ∀ kind, s.root? kind =
    if d.definitions.any isAboutSchema then
      (d.rootTypes.find? (·.operation == kind)).bind fun r => s.type? r.type.name.value
    else (d.typeDefinition? kind.defaultRoot).map .defined

/-- Two schemas that answer alike, but for the order in which they list their types. -/
structure Agrees (s s' : DocumentSchema) : Prop where
  names : s.typeNames.Perm s'.typeNames
  extensions : s.extensionsOf = s'.extensionsOf
  fields : s.fieldsOf = s'.fieldsOf
  schema : s.toSchema = s'.toSchema

variable {s : DocumentSchema} {name : String}

/-! ### The first pass -/

/-- A definition that declares a type is known from then on, unless the name was known before. -/
theorem lookup?_declareIn (x : Definition) :
    (s.declareIn x).lookup? name =
      (s.lookup? name).or (((x.type?).filter (·.name.value == name)).map (⟨·, []⟩)) := by
  cases x with
  | type t =>
    rw [declareIn, declare, Definition.type?]
    split
    · next known =>
      by_cases same : t.name.value = name
      · subst same
        obtain ⟨e, found⟩ := Option.isSome_iff_exists.mp known
        rw [found, Option.some_or]
      · simp [Option.filter, same]
    · simp only [lookup?, List.find?_append]
      congr 1
      by_cases same : t.name.value = name <;> simp [Option.filter, TypeEntry.name, same]
  | _ => simp [declareIn, Definition.type?]

theorem lookup?_declared (ds : List Definition) :
    (ds.foldl declareIn empty).lookup? name =
      ((ds.filterMap (·.type?)).find? (·.name.value == name)).map (⟨·, []⟩) := by
  induction ds using List.reverseRecOn with
  | nil => rfl
  | append_singleton ds x ih =>
    rw [List.foldl_append, List.foldl_cons, List.foldl_nil, lookup?_declareIn, ih,
      List.filterMap_append, List.find?_append, Option.map_or]
    cases h : x.type? <;> simp [h, Option.filter]

theorem roots_declared (ds : List Definition) : (ds.foldl declareIn empty).roots = [] := by
  induction ds using List.reverseRecOn with
  | nil => rfl
  | append_singleton ds x ih =>
    rw [List.foldl_append, List.foldl_cons, List.foldl_nil, ← ih]
    cases x with
    | type t =>
      rw [declareIn, declare]
      split <;> rfl
    | _ => rfl

theorem known_iff : (s.lookup? name).isSome = true ↔ name ∈ s.typeNames := by
  simp [lookup?, typeNames, List.find?_isSome]

/-- A name is listed when it is declared first. -/
theorem typeNames_declare (t : TypeDefinition) :
    (s.declare t).typeNames =
      if t.name.value ∈ s.typeNames then s.typeNames else s.typeNames ++ [t.name.value] := by
  rw [declare]
  by_cases listed : t.name.value ∈ s.typeNames
  · rw [if_pos (known_iff.mpr listed), if_pos listed]
  · rw [if_neg (known_iff.not.mpr listed), if_neg listed]
    simp [typeNames, TypeEntry.name]

theorem typeNames_declared (ds : List Definition) :
    (ds.foldl declareIn empty).typeNames =
      ((ds.filterMap (·.type?)).map (·.name.value)).eraseDups := by
  induction ds using List.reverseRecOn with
  | nil => rfl
  | append_singleton ds x ih =>
    rw [List.foldl_append, List.foldl_cons, List.foldl_nil, List.filterMap_append]
    cases x with
    | type t =>
      rw [declareIn, typeNames_declare, ih, List.map_append]
      exact (eraseDups_concat _).symm
    | _ => simpa [declareIn, Definition.type?] using ih

/-! ### The second pass -/

/-- An extension is attached to the type of its name, and to no other. -/
theorem lookup?_extend (x : TypeExtension) :
    (s.extend x).lookup? name = (s.lookup? name).map fun e =>
      { e with extensions := e.extensions ++ [x].filter (·.name.value == name) } := by
  rw [extend, lookup?, List.find?_map]
  have same_names : ((·.name == name) ∘ fun e : TypeEntry =>
      if e.name == x.name.value then { e with extensions := e.extensions ++ [x] } else e) =
        (·.name == name) := by
    funext e
    dsimp only [Function.comp]
    split <;> rfl
  rw [same_names]
  change Option.map _ (s.lookup? name) = _
  apply Option.map_congr
  intro e found
  have named : e.name = name := by simpa using List.find?_some found
  by_cases h : x.name.value = name
  · simp [named, h]
  · simp [named, h, Ne.symm h]

theorem addRoots_types (roots : List RootType) : (s.addRoots roots).types = s.types := by
  unfold addRoots
  induction roots generalizing s with
  | nil => rfl
  | cons r rs ih =>
    rw [List.foldl_cons, ih]
    split <;> rfl

theorem lookup?_addRoots (roots : List RootType) : (s.addRoots roots).lookup? name = s.lookup? name := by
  rw [lookup?, lookup?, addRoots_types]

/-- The name of the root type of a kind, as far as it is known. -/
def rootName? (s : DocumentSchema) (kind : OperationKind) : Option String :=
  (s.roots.find? (·.1 == kind)).map (·.2)

theorem rootName?_addRoots (roots : List RootType) (kind : OperationKind) :
    (s.addRoots roots).rootName? kind =
      (s.rootName? kind).or ((roots.find? (·.operation == kind)).map (·.type.name.value)) := by
  unfold addRoots
  induction roots generalizing s with
  | nil => simp
  | cons r rs ih =>
    rw [List.foldl_cons, ih]
    split
    · next known =>
      by_cases same : r.operation = kind
      · subst same
        obtain ⟨pair, found⟩ : ∃ pair, s.roots.find? (·.1 == r.operation) = some pair := by
          rw [← Option.isSome_iff_exists, List.find?_isSome]
          simpa using known
        simp [rootName?, found]
      · simp [same]
    · next unknown =>
      by_cases same : r.operation = kind
      · subst same
        cases found : s.roots.find? (·.1 == r.operation) <;>
          simp [rootName?, List.find?_append, found]
      · simp [rootName?, List.find?_append, same]

theorem lookup?_attached (ds : List Definition) :
    (ds.foldl attachIn s).lookup? name = (s.lookup? name).map fun e =>
      { e with extensions := e.extensions ++
          (ds.filterMap (·.typeExtension?)).filter (·.name.value == name) } := by
  induction ds using List.reverseRecOn with
  | nil => simp
  | append_singleton ds x ih =>
    rw [List.foldl_append, List.foldl_cons, List.foldl_nil, List.filterMap_append]
    cases x with
    | typeExtension x =>
      rw [attachIn, lookup?_extend, ih, Option.map_map]
      simp [Function.comp_def, Definition.typeExtension?]
    | schema x =>
      rw [attachIn, lookup?_addRoots]
      simpa [Definition.typeExtension?] using ih
    | schemaExtension x =>
      rw [attachIn, lookup?_addRoots]
      simpa [Definition.typeExtension?] using ih
    | _ => simpa [attachIn, Definition.typeExtension?] using ih

theorem typeNames_attached (ds : List Definition) :
    (ds.foldl attachIn s).typeNames = s.typeNames := by
  induction ds using List.reverseRecOn with
  | nil => rfl
  | append_singleton ds x ih =>
    rw [List.foldl_append, List.foldl_cons, List.foldl_nil, ← ih]
    cases x with
    | typeExtension x =>
      simp only [attachIn, extend, typeNames, List.map_map]
      congr 1
      funext e
      dsimp only [Function.comp]
      split <;> rfl
    | schema x => simp only [attachIn, typeNames, addRoots_types]
    | schemaExtension x => simp only [attachIn, typeNames, addRoots_types]
    | _ => rfl

theorem rootName?_attached (ds : List Definition) (kind : OperationKind) :
    (ds.foldl attachIn s).rootName? kind =
      (s.rootName? kind).or
        (((ds.flatMap (·.rootTypes)).find? (·.operation == kind)).map (·.type.name.value)) := by
  induction ds using List.reverseRecOn with
  | nil => simp
  | append_singleton ds x ih =>
    rw [List.foldl_append, List.foldl_cons, List.foldl_nil, List.flatMap_append, List.find?_append,
      Option.map_or, ← Option.or_assoc, ← ih]
    cases x with
    | schema x => simp [attachIn, rootName?_addRoots, Definition.rootTypes]
    | schemaExtension x => simp [attachIn, rootName?_addRoots, Definition.rootTypes]
    | _ => simp [attachIn, Definition.rootTypes, rootName?, extend]

/-! ### The whole document -/

variable {d d' : Document}

theorem lookup?_ofDocument (d : Document) (name : String) :
    (ofDocument d).lookup? name =
      (d.typeDefinition? name).map fun t => ⟨t, d.extensionsOf name⟩ := by
  have attached : (d.definitions.foldl attachIn (d.definitions.foldl declareIn empty)).lookup? name =
      (d.typeDefinition? name).map fun t => ⟨t, d.extensionsOf name⟩ := by
    rw [lookup?_attached, lookup?_declared, Option.map_map]
    rfl
  rw [ofDocument]
  split
  · exact attached
  · exact attached

theorem typeNames_ofDocument (d : Document) :
    (ofDocument d).typeNames = (d.typeDefinitions.map (·.name.value)).eraseDups := by
  have attached : (d.definitions.foldl attachIn (d.definitions.foldl declareIn empty)).typeNames =
      (d.typeDefinitions.map (·.name.value)).eraseDups := by
    rw [typeNames_attached, typeNames_declared]
    rfl
  rw [ofDocument]
  split
  · exact attached
  · exact attached

theorem rootName?_addDefaultRoots (kind : OperationKind) :
    s.addDefaultRoots.rootName? kind =
      if (s.lookup? kind.defaultRoot).isSome then some kind.defaultRoot else none := by
  rw [addDefaultRoots, rootName?, List.find?_map]
  cases kind <;> split <;> simp_all [List.find?_filter]

theorem rootName?_ofDocument (d : Document) (kind : OperationKind) :
    (ofDocument d).rootName? kind =
      if d.definitions.any isAboutSchema then
        (d.rootTypes.find? (·.operation == kind)).map (·.type.name.value)
      else if (d.typeDefinition? kind.defaultRoot).isSome then some kind.defaultRoot
      else none := by
  rw [ofDocument]
  split
  · rw [rootName?_attached, rootName?, roots_declared]
    rfl
  · rw [rootName?_addDefaultRoots, lookup?_attached, lookup?_declared, Option.isSome_map,
      Option.isSome_map]
    rfl

theorem type?_eq (s : DocumentSchema) (name : String) :
    s.type? name =
      match (s.lookup? name).map (·.definition) with
      | some t => some (.defined t)
      | none => (BuiltInScalar.ofName? name).map .builtIn := by
  rw [type?]
  cases s.lookup? name <;> rfl

theorem root?_eq (s : DocumentSchema) (kind : OperationKind) :
    s.root? kind = (s.rootName? kind).bind s.type? := by
  rw [root?, rootName?]
  cases s.roots.find? (·.1 == kind) <;> rfl

/-- The schema of a document answers as the document says. -/
theorem ofDocument_reads (d : Document) : (ofDocument d).Reads d where
  type name := by
    rw [type?_eq, lookup?_ofDocument, Option.map_map, Function.comp_def, Option.map_id']
  names := typeNames_ofDocument d
  extensions name := by
    rw [extensionsOf, lookup?_ofDocument]
    cases d.typeDefinition? name <;> rfl
  fields name := by
    rw [fieldsOf, lookup?_ofDocument]
    cases d.typeDefinition? name <;> rfl
  field _ _ := rfl
  root kind := by
    rw [root?_eq, rootName?_ofDocument]
    split
    · rw [Option.bind_map]
      rfl
    · cases found : d.typeDefinition? kind.defaultRoot with
      | none => rfl
      | some t => simp [type?_eq, lookup?_ofDocument, found]

/-! ### Documents in another order -/

theorem typeDefinition?_eq (d : Document) (name : String) :
    d.typeDefinition? name = (d.typeDefinitions.filter (·.name.value == name)).head? :=
  List.head?_filter.symm

/-- Root types are named only by what is about the schema itself. -/
theorem rootTypes_eq (d : Document) :
    d.rootTypes = (d.definitions.filter isAboutSchema).flatMap (·.rootTypes) := by
  rw [Document.rootTypes]
  induction d.definitions with
  | nil => rfl
  | cons x xs ih =>
    rw [List.flatMap_cons, ih]
    cases x <;> rfl

theorem Reads.agrees (h : s.Reads d) {s' : DocumentSchema} (h' : s'.Reads d')
    (reorders : d.Reorders d') : s.Agrees s' := by
  have defined (name : String) : d.typeDefinition? name = d'.typeDefinition? name := by
    rw [typeDefinition?_eq, typeDefinition?_eq, reorders.types]
  have about : d.definitions.any isAboutSchema = d'.definitions.any isAboutSchema :=
    reorders.definitions.any_eq
  have roots : d.rootTypes = d'.rootTypes := by
    rw [rootTypes_eq, rootTypes_eq, reorders.schema]
  have types : s.type? = s'.type? := by
    funext name
    rw [h.type, h'.type, defined]
  have fields : s.fieldsOf = s'.fieldsOf := by
    funext name
    rw [h.fields, h'.fields, defined, reorders.extensions]
  have field : s.field? = s'.field? := by
    funext parent name
    rw [h.field, h'.field, fields]
  have root : s.root? = s'.root? := by
    funext kind
    rw [h.root, h'.root, about, roots, types, defined]
  constructor
  · have listed := reorders.definitions.filterMap (·.type?) |>.map (·.name.value)
    rw [h.names, h'.names, List.perm_ext_iff_of_nodup (nodup_eraseDups _) (nodup_eraseDups _)]
    intro name
    rw [List.mem_eraseDups, List.mem_eraseDups]
    exact listed.mem_iff
  · funext name
    rw [h.extensions, h'.extensions, defined, reorders.extensions]
  · exact fields
  · rw [toSchema, toSchema, types, field, root]

/-- The schema of a document answers as the document says, and the same for every order of its
definitions that keeps those of one name, and those about the schema, in their order. -/
theorem schema_declarative (d : Document) :
    (ofDocument d).Reads d ∧ ∀ d', d.Reorders d' → (ofDocument d).Agrees (ofDocument d') :=
  ⟨ofDocument_reads d, fun d' => (ofDocument_reads d).agrees (ofDocument_reads d')⟩

/-- A field without arguments. -/
def plainField (name type : String) : FieldDefinition :=
  ⟨none, none, ⟨none, name⟩, [], .nullable (.named ⟨none, ⟨none, type⟩⟩), []⟩

/-- The type `A` defined twice, and a scalar that hides the built-in one. -/
def doubledTypes : List Definition :=
  [.type ⟨none, none, ⟨none, "A"⟩, [], .object [] [plainField "first" "Int"]⟩,
    .type ⟨none, none, ⟨none, "A"⟩, [], .object [] [plainField "second" "Int"]⟩,
    .type ⟨none, none, ⟨none, "Int"⟩, [], .scalar⟩]

/-- Extensions of `A`, of the schema, and of a type that is not defined. -/
def laterExtensions : List Definition :=
  [.typeExtension ⟨none, ⟨none, "A"⟩, [], .object [] [plainField "third" "A"]⟩,
    .schemaExtension ⟨none, [], [⟨none, .mutation, ⟨none, ⟨none, "A"⟩⟩⟩]⟩,
    .typeExtension ⟨none, ⟨none, "B"⟩, [], .object [] [plainField "fourth" "A"]⟩]

/-- The extensions may stand in front of the types. Without a root type for queries in the extension
of the schema, there is none. -/
theorem schema_declarative_extensions_first :
    let before : Document := ⟨none, doubledTypes ++ laterExtensions⟩
    let after : Document := ⟨none, laterExtensions ++ doubledTypes⟩
    before.Reorders after ∧ (ofDocument before).Agrees (ofDocument after) ∧
      (ofDocument before).Reads before ∧
      (ofDocument after).typeNames = ["A", "Int"] ∧
      ((ofDocument after).fieldsOf "A").map (·.name.value) = ["first", "third"] ∧
      ((ofDocument after).root? .mutation).map (·.name) = some "A" ∧
      ((ofDocument after).root? .query).map (·.name) = none := by
  intro before after
  have reorders : before.Reorders after := by
    constructor
    · exact List.perm_append_comm
    · exact fun _ => rfl
    · exact fun _ => rfl
    · rfl
  obtain ⟨reads, agrees⟩ := schema_declarative before
  exact ⟨reorders, agrees after reorders, reads, by decide, by decide, by decide, by decide⟩

end DocumentSchema
end GraphQL
