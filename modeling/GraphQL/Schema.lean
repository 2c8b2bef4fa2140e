import GraphQL.Schema.Type

/-! Schemas: what is known about types, and how references to types are resolved. -/
namespace GraphQL

mutual

/-- Resolves a type that admits null, if its name is known. -/
def NullableType.resolve? (type? : String → Option KnownType) :
    NullableType → Option ResolvedType
  | .named t => (type? t.name.value).map .named
  | .list _ e => (e.resolve? type?).map .list

/-- Resolves a type, if its name is known. -/
def TypeRef.resolve? (type? : String → Option KnownType) : TypeRef → Option ResolvedType
  | .nullable t => t.resolve? type?
  | .nonNull _ t => (t.resolve? type?).map .nonNull

end

/-- What a schema answers. -/
structure Schema where
  /-- The type of a name. -/
  type? : String → Option KnownType
  /-- A field that can be selected in a type. -/
  field? : ResolvedType → String → Option FieldDefinition
  /-- The type that operations of a kind start from. -/
  root? : OperationKind → Option KnownType
  /-- What a reference to a type stands for. -/
  resolve? : TypeRef → Option ResolvedType := TypeRef.resolve? type?

/-- A type and the extensions of it. -/
structure TypeEntry where
  definition : TypeDefinition
  extensions : List TypeExtension

namespace TypeEntry

def name (e : TypeEntry) : String := e.definition.name.value

/-- The fields that can be selected, those of extensions last. -/
def fields (e : TypeEntry) : List FieldDefinition :=
  e.definition.body.outputFields ++ e.extensions.flatMap (·.body.outputFields)

end TypeEntry

/-- The type system that a document defines. -/
structure DocumentSchema where
  types : List TypeEntry
  roots : List (OperationKind × String)

namespace DocumentSchema

/-- A schema without anything defined. -/
def empty : DocumentSchema := ⟨[], []⟩

/-- The entry of a type that the document defines. -/
def lookup? (s : DocumentSchema) (name : String) : Option TypeEntry :=
  s.types.find? (·.name == name)

/-- Adds a type, unless its name is taken. -/
def declare (s : DocumentSchema) (d : TypeDefinition) : DocumentSchema :=
  if (s.lookup? d.name.value).isSome then s
  else { s with types := s.types ++ [⟨d, []⟩] }

/-- Adds an extension to the type of its name, if that is defined. -/
def extend (s : DocumentSchema) (x : TypeExtension) : DocumentSchema :=
  { s with types := s.types.map fun e =>
      if e.name == x.name.value then { e with extensions := e.extensions ++ [x] } else e }

/-- Adds root types; those already known win. -/
def addRoots (s : DocumentSchema) (roots : List RootType) : DocumentSchema :=
  roots.foldl (fun s r =>
    if s.roots.any (·.1 == r.operation) then s
    else { s with roots := s.roots ++ [(r.operation, r.type.name.value)] }) s

/-- What a definition declares, in a first pass. -/
def declareIn (s : DocumentSchema) : Definition → DocumentSchema
  | .type d => s.declare d
  | _ => s

/-- What a definition attaches to the types declared, in a second pass. -/
def attachIn (s : DocumentSchema) : Definition → DocumentSchema
  | .typeExtension x => s.extend x
  | .schema d => s.addRoots d.rootTypes
  | .schemaExtension x => s.addRoots x.rootTypes
  | _ => s

/-- Definitions and extensions of the schema itself. -/
def isAboutSchema : Definition → Bool
  | .schema _ | .schemaExtension _ => true
  | _ => false

/-- The default root types that are defined. -/
def addDefaultRoots (s : DocumentSchema) : DocumentSchema :=
  let kinds := [OperationKind.query, .mutation, .subscription]
  let found := kinds.filter fun k => (s.lookup? k.defaultRoot).isSome
  { s with roots := found.map fun k => (k, k.defaultRoot) }

/-- Reads the type system of a document. Without a definition or an extension of the schema itself,
root types go by their default names. -/
def ofDocument (d : Document) : DocumentSchema :=
  let s := d.definitions.foldl attachIn (d.definitions.foldl declareIn empty)
  if d.definitions.any isAboutSchema then s else s.addDefaultRoots

/-- The names of the types defined, in order. -/
def typeNames (s : DocumentSchema) : List String := s.types.map (·.name)

def extensionsOf (s : DocumentSchema) (name : String) : List TypeExtension :=
  ((s.lookup? name).map (·.extensions)).getD []

/-- The fields that can be selected in a type, in order. -/
def fieldsOf (s : DocumentSchema) (name : String) : List FieldDefinition :=
  ((s.lookup? name).map (·.fields)).getD []

/-- The type of a name. A definition hides a built-in scalar. -/
def type? (s : DocumentSchema) (name : String) : Option KnownType :=
  match s.lookup? name with
  | some e => some (.defined e.definition)
  | none => (BuiltInScalar.ofName? name).map .builtIn

/-- The first field of a name that can be selected in a type. -/
def field? (s : DocumentSchema) (parent : ResolvedType) (name : String) : Option FieldDefinition :=
  (s.fieldsOf parent.core.name).find? (·.name.value == name)

/-- The type that operations of a kind start from. -/
def root? (s : DocumentSchema) (kind : OperationKind) : Option KnownType :=
  (s.roots.find? (·.1 == kind)).bind fun (_, name) => s.type? name

/-- The document's answers. -/
def toSchema (s : DocumentSchema) : Schema where
  type? := s.type?
  field? := s.field?
  root? := s.root?

end DocumentSchema
end GraphQL
