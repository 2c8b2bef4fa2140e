import GraphQL.Node

/-! Transformers: functions on syntax that rebuild only what changes. Nothing in place of a result
means that the input stays as it is. -/
namespace GraphQL

/-- A replacement of something, or nothing where it stays. -/
abbrev Replacement (α : Type) := Option α

namespace Replacement

variable {α : Type}

/-- The result of a step on `a`. -/
def applyTo (a : α) (r : Replacement α) : α := r.getD a

/-- Whether each of some replacements leaves its input alone. -/
def noneOf (rs : List (Replacement α)) : Bool := rs.all (·.isNone)

/-- The replacement of a list, from the replacements of its items. -/
def ofList (as : List α) (rs : List (Replacement α)) : Replacement (List α) :=
  if noneOf rs then none else some (List.zipWith applyTo as rs)

/-- What has been copied of a list after one more item: nothing as long as all items stay, and the
first one that is replaced brings along those in front of it. -/
def push (front : List α) (copied : Replacement (List α)) (a : α) (r : Replacement α) :
    Replacement (List α) :=
  match copied, r with
  | some bs, r => some (bs ++ [r.applyTo a])
  | none, some b => some (front ++ [b])
  | none, none => none

/-- The replacement of something optional. -/
def ofOption (r : Replacement α) : Replacement (Option α) := r.map some

end Replacement

/-- What to do at nodes of some sort, given the node and the step that transforms its children. -/
abbrev Hook (m : Type → Type) (α : Type) := α → m (Replacement α) → m (Replacement α)

/-- The hook that only transforms children. -/
def Hook.children {m : Type → Type} {α : Type} : Hook m α := fun _ inner => inner

/-- Hooks for all sorts of nodes. Where nodes have a group of sorts, the hook of the group runs
around that of the sort. -/
structure Transformer (m : Type → Type) where
  document : Hook m Document := Hook.children
  definition : Hook m Definition := Hook.children
  operation : Hook m OperationDefinition := Hook.children
  fragment : Hook m FragmentDefinition := Hook.children
  variableDefinition : Hook m VariableDefinition := Hook.children
  selectionSet : Hook m SelectionSet := Hook.children
  selection : Hook m Selection := Hook.children
  field : Hook m Field := Hook.children
  spread : Hook m FragmentSpread := Hook.children
  inlineFragment : Hook m InlineFragment := Hook.children
  argument : Hook m Argument := Hook.children
  directive : Hook m Directive := Hook.children
  /-- All values. -/
  value : Hook m Value := Hook.children
  /-- Values of one sort; strings have a hook of their own, for they also are descriptions. -/
  valueOf : ValueKind → Hook m Value := fun _ => Hook.children
  string : Hook m StringValue := Hook.children
  objectField : Hook m ObjectField := Hook.children
  /-- All types but those right below a non-null mark. -/
  type : Hook m TypeRef := Hook.children
  /-- Types right below a non-null mark. -/
  markedType : Hook m NullableType := Hook.children
  namedType : Hook m NamedType := Hook.children
  /-- Lists of types. -/
  listType : Hook m NullableType := Hook.children
  /-- Types with a non-null mark. -/
  nonNullType : Hook m TypeRef := Hook.children
  schema : Hook m SchemaDefinition := Hook.children
  schemaExtension : Hook m SchemaExtension := Hook.children
  rootType : Hook m RootType := Hook.children
  /-- All type definitions. -/
  typeDefinition : Hook m TypeDefinition := Hook.children
  /-- Type definitions of one form. -/
  typeDefinitionOf : TypeForm → Hook m TypeDefinition := fun _ => Hook.children
  /-- All type extensions. -/
  typeExtension : Hook m TypeExtension := Hook.children
  /-- Type extensions of one form. -/
  typeExtensionOf : TypeForm → Hook m TypeExtension := fun _ => Hook.children
  enumValueDefinition : Hook m EnumValueDefinition := Hook.children
  directiveDefinition : Hook m DirectiveDefinition := Hook.children
  fieldDefinition : Hook m FieldDefinition := Hook.children
  inputDefinition : Hook m InputDefinition := Hook.children
  name : Hook m Name := Hook.children

namespace Transformer

variable {m : Type → Type} [Monad m]

/-- Transforms the items of a list in order. -/
def onList {α : Type} (f : α → m (Replacement α)) (as : List α) : m (Replacement (List α)) := do
  return Replacement.ofList as (← as.mapM f)

/-- Transforms the items of a list in order, and copies it item by item from the first one on that is
replaced. -/
def copyList {α : Type} (f : α → m (Replacement α)) (as : List α) : m (Replacement (List α)) :=
  as.zipIdx.foldlM
    (fun copied (a, i) => return Replacement.push (as.take i) copied a (← f a)) none

/-- Transforms something optional. -/
def onOption {α : Type} (f : α → m (Replacement α)) : Option α → m (Replacement (Option α))
  | none => return none
  | some a => return Replacement.ofOption (← f a)

/-- Transforms a name. -/
def onName (T : Transformer m) (n : Name) : m (Replacement Name) := T.name n (pure none)

/-- Transforms a string. -/
def onString (T : Transformer m) (s : StringValue) : m (Replacement StringValue) :=
  T.string s (pure none)

/-- Transforms a type's name. -/
def onNamedType (T : Transformer m) (t : NamedType) : m (Replacement NamedType) :=
  T.namedType t do
    let name ← T.onName t.name
    return name.map fun name => { t with name }

mutual

/-- Transforms a value. -/
def onValue (T : Transformer m) : Value → m (Replacement Value)
  | .boolean o b => T.value (.boolean o b) (T.valueOf .boolean (.boolean o b) (pure none))
  | .enum o w => T.value (.enum o w) (T.valueOf .enum (.enum o w) (pure none))
  | .float o x => T.value (.float o x) (T.valueOf .float (.float o x) (pure none))
  | .int o n => T.value (.int o n) (T.valueOf .int (.int o n) (pure none))
  | .list o vs => T.value (.list o vs) <| T.valueOf .list (.list o vs) do
      let rs ← T.onValues vs
      return (Replacement.ofList vs rs).map (.list o)
  | .null o => T.value (.null o) (T.valueOf .null (.null o) (pure none))
  | .object o fs => T.value (.object o fs) <| T.valueOf .object (.object o fs) do
      let rs ← T.onObjectFields fs
      return (Replacement.ofList fs rs).map (.object o)
  | .string s => T.value (.string s) do
      let r ← T.onString s
      return r.map .string
  | .variable o n => T.value (.variable o n) <| T.valueOf .variable (.variable o n) do
      let r ← T.onName n
      return r.map (.variable o)

/-- Transforms values in a row. -/
def onValues (T : Transformer m) : List Value → m (List (Replacement Value))
  | [] => return []
  | v :: vs => do
    let r ← T.onValue v
    let rs ← T.onValues vs
    return r :: rs

/-- Transforms a field of an object. -/
def onObjectField (T : Transformer m) : ObjectField → m (Replacement ObjectField)
  | ⟨o, n, v⟩ => T.objectField ⟨o, n, v⟩ do
    let name ← T.onName n
    let value ← T.onValue v
    if name.isNone && value.isNone then return none
    else return some ⟨o, name.applyTo n, value.applyTo v⟩

/-- Transforms fields in a row. -/
def onObjectFields (T : Transformer m) : List ObjectField → m (List (Replacement ObjectField))
  | [] => return []
  | f :: fs => do
    let r ← T.onObjectField f
    let rs ← T.onObjectFields fs
    return r :: rs

end

mutual

/-- Transforms a type by the hook of its sort. -/
def onNullable (T : Transformer m) : NullableType → m (Replacement NullableType)
  | .named t => do
    let r ← T.onNamedType t
    return r.map .named
  | .list o e => T.listType (.list o e) do
    let r ← T.onType e
    return r.map (.list o)

/-- Transforms a type. -/
def onType (T : Transformer m) : TypeRef → m (Replacement TypeRef)
  | .nullable t => T.type (.nullable t) do
    let r ← T.onNullable t
    return r.map .nullable
  | .nonNull o t => T.type (.nonNull o t) <| T.nonNullType (.nonNull o t) do
    let r ← T.markedType t (T.onNullable t)
    return r.map (.nonNull o)

end

/-- Transforms an argument. -/
def onArgument (T : Transformer m) (a : Argument) : m (Replacement Argument) :=
  T.argument a do
    let name ← T.onName a.name
    let value ← T.onValue a.value
    if name.isNone && value.isNone then return none
    else return some { a with name := name.applyTo a.name, value := value.applyTo a.value }

/-- Transforms a directive. -/
def onDirective (T : Transformer m) (d : Directive) : m (Replacement Directive) :=
  T.directive d do
    let name ← T.onName d.name
    let arguments ← onList T.onArgument d.arguments
    if name.isNone && arguments.isNone then return none
    else return some { d with
      name := name.applyTo d.name, arguments := arguments.applyTo d.arguments }

/-- Transforms directives in a row. -/
def onDirectives (T : Transformer m) (ds : List Directive) : m (Replacement (List Directive)) :=
  onList T.onDirective ds

/-- Transforms a fragment spread. -/
def onSpread (T : Transformer m) (s : FragmentSpread) : m (Replacement FragmentSpread) :=
  T.spread s do
    let name ← T.onName s.name
    let directives ← T.onDirectives s.directives
    if name.isNone && directives.isNone then return none
    else return some { s with
      name := name.applyTo s.name, directives := directives.applyTo s.directives }

mutual

/-- Transforms a selection. -/
def onSelection (T : Transformer m) : Selection → m (Replacement Selection)
  | .field f => T.selection (.field f) do
    let r ← T.onField f
    return r.map .field
  | .spread s => T.selection (.spread s) do
    let r ← T.onSpread s
    return r.map .spread
  | .inlineFragment f => T.selection (.inlineFragment f) do
    let r ← T.onInlineFragment f
    return r.map .inlineFragment

/-- Transforms a field. -/
def onField (T : Transformer m) : Field → m (Replacement Field)
  | ⟨o, a, n, as, ds, ss⟩ => T.field ⟨o, a, n, as, ds, ss⟩ do
    let aliasName ← onOption T.onName a
    let name ← T.onName n
    let arguments ← onList T.onArgument as
    let directives ← T.onDirectives ds
    let selectionSet ← T.onOptionalSelectionSet ss
    if aliasName.isNone && name.isNone && arguments.isNone && directives.isNone &&
      selectionSet.isNone then return none
    else return some ⟨o, aliasName.applyTo a, name.applyTo n, arguments.applyTo as,
      directives.applyTo ds, selectionSet.applyTo ss⟩

/-- Transforms an inline fragment. -/
def onInlineFragment (T : Transformer m) : InlineFragment → m (Replacement InlineFragment)
  | ⟨o, t, ds, ss⟩ => T.inlineFragment ⟨o, t, ds, ss⟩ do
    let typeCondition ← onOption T.onNamedType t
    let directives ← T.onDirectives ds
    let selectionSet ← T.onSelectionSet ss
    if typeCondition.isNone && directives.isNone && selectionSet.isNone then return none
    else return some ⟨o, typeCondition.applyTo t, directives.applyTo ds, selectionSet.applyTo ss⟩

/-- Transforms a selection set. -/
def onSelectionSet (T : Transformer m) : SelectionSet → m (Replacement SelectionSet)
  | ⟨o, ss⟩ => T.selectionSet ⟨o, ss⟩ do
    let rs ← T.onSelections ss
    return (Replacement.ofList ss rs).map fun selections => ⟨o, selections⟩

/-- Transforms a selection set that may be missing. -/
def onOptionalSelectionSet (T : Transformer m) :
    Option SelectionSet → m (Replacement (Option SelectionSet))
  | none => return none
  | some s => do
    let r ← T.onSelectionSet s
    return Replacement.ofOption r

/-- Transforms selections in a row. -/
def onSelections (T : Transformer m) : List Selection → m (List (Replacement Selection))
  | [] => return []
  | s :: ss => do
    let r ← T.onSelection s
    let rs ← T.onSelections ss
    return r :: rs

end

/-- Transforms a variable definition. -/
def onVariableDefinition (T : Transformer m) (d : VariableDefinition) :
    m (Replacement VariableDefinition) :=
  T.variableDefinition d do
    let name ← T.onName d.name
    let type ← T.onType d.type
    let default ← onOption T.onValue d.default
    let directives ← T.onDirectives d.directives
    if name.isNone && type.isNone && default.isNone && directives.isNone then return none
    else return some { d with
      name := name.applyTo d.name, type := type.applyTo d.type,
      default := default.applyTo d.default, directives := directives.applyTo d.directives }

/-- Transforms an operation. -/
def onOperation (T : Transformer m) (d : OperationDefinition) :
    m (Replacement OperationDefinition) :=
  T.operation d do
    let name ← onOption T.onName d.name
    let variableDefinitions ← onList T.onVariableDefinition d.variableDefinitions
    let directives ← T.onDirectives d.directives
    let selectionSet ← T.onSelectionSet d.selectionSet
    if name.isNone && variableDefinitions.isNone && directives.isNone && selectionSet.isNone then
      return none
    else return some { d with
      name := name.applyTo d.name,
      variableDefinitions := variableDefinitions.applyTo d.variableDefinitions,
      directives := directives.applyTo d.directives,
      selectionSet := selectionSet.applyTo d.selectionSet }

/-- Transforms a fragment. -/
def onFragment (T : Transformer m) (d : FragmentDefinition) : m (Replacement FragmentDefinition) :=
  T.fragment d do
    let name ← T.onName d.name
    let typeCondition ← T.onNamedType d.typeCondition
    let directives ← T.onDirectives d.directives
    let selectionSet ← T.onSelectionSet d.selectionSet
    if name.isNone && typeCondition.isNone && directives.isNone && selectionSet.isNone then
      return none
    else return some { d with
      name := name.applyTo d.name, typeCondition := typeCondition.applyTo d.typeCondition,
      directives := directives.applyTo d.directives,
      selectionSet := selectionSet.applyTo d.selectionSet }

/-- Transforms a root type. -/
def onRootType (T : Transformer m) (t : RootType) : m (Replacement RootType) :=
  T.rootType t do
    let type ← T.onNamedType t.type
    return type.map fun type => { t with type }

/-- Transforms a schema. -/
def onSchema (T : Transformer m) (d : SchemaDefinition) : m (Replacement SchemaDefinition) :=
  T.schema d do
    let description ← onOption T.onString d.description
    let directives ← T.onDirectives d.directives
    let rootTypes ← onList T.onRootType d.rootTypes
    if description.isNone && directives.isNone && rootTypes.isNone then return none
    else return some { d with
      description := description.applyTo d.description,
      directives := directives.applyTo d.directives, rootTypes := rootTypes.applyTo d.rootTypes }

/-- Transforms additions to a schema. -/
def onSchemaExtension (T : Transformer m) (d : SchemaExtension) :
    m (Replacement SchemaExtension) :=
  T.schemaExtension d do
    let directives ← T.onDirectives d.directives
    let rootTypes ← onList T.onRootType d.rootTypes
    if directives.isNone && rootTypes.isNone then return none
    else return some { d with
      directives := directives.applyTo d.directives, rootTypes := rootTypes.applyTo d.rootTypes }

/-- Transforms an input. -/
def onInputDefinition (T : Transformer m) (d : InputDefinition) : m (Replacement InputDefinition) :=
  T.inputDefinition d do
    let description ← onOption T.onString d.description
    let name ← T.onName d.name
    let type ← T.onType d.type
    let default ← onOption T.onValue d.default
    let directives ← T.onDirectives d.directives
    if description.isNone && name.isNone && type.isNone && default.isNone &&
      directives.isNone then return none
    else return some { d with
      description := description.applyTo d.description, name := name.applyTo d.name,
      type := type.applyTo d.type, default := default.applyTo d.default,
      directives := directives.applyTo d.directives }

/-- Transforms a field definition. -/
def onFieldDefinition (T : Transformer m) (d : FieldDefinition) : m (Replacement FieldDefinition) :=
  T.fieldDefinition d do
    let description ← onOption T.onString d.description
    let name ← T.onName d.name
    let arguments ← onList T.onInputDefinition d.arguments
    let type ← T.onType d.type
    let directives ← T.onDirectives d.directives
    if description.isNone && name.isNone && arguments.isNone && type.isNone &&
      directives.isNone then return none
    else return some { d with
      description := description.applyTo d.description, name := name.applyTo d.name,
      arguments := arguments.applyTo d.arguments, type := type.applyTo d.type,
      directives := directives.applyTo d.directives }

/-- Transforms an enum value. -/
def onEnumValueDefinition (T : Transformer m) (d : EnumValueDefinition) :
    m (Replacement EnumValueDefinition) :=
  T.enumValueDefinition d do
    let description ← onOption T.onString d.description
    let name ← T.onName d.name
    let directives ← T.onDirectives d.directives
    if description.isNone && name.isNone && directives.isNone then return none
    else return some { d with
      description := description.applyTo d.description, name := name.applyTo d.name,
      directives := directives.applyTo d.directives }

/-- Transforms the directives of a type and its body, in the order in which they are written. -/
def onTypeBody (T : Transformer m) (ds : List Directive) :
    TypeBody → m (Replacement (List Directive) × Replacement TypeBody)
  | .scalar => do
    let directives ← T.onDirectives ds
    return (directives, none)
  | .object is fs => do
    let interfaces ← onList T.onNamedType is
    let directives ← T.onDirectives ds
    let fields ← onList T.onFieldDefinition fs
    if interfaces.isNone && fields.isNone then return (directives, none)
    else return (directives, some (.object (interfaces.applyTo is) (fields.applyTo fs)))
  | .interface is fs => do
    let interfaces ← onList T.onNamedType is
    let directives ← T.onDirectives ds
    let fields ← onList T.onFieldDefinition fs
    if interfaces.isNone && fields.isNone then return (directives, none)
    else return (directives, some (.interface (interfaces.applyTo is) (fields.applyTo fs)))
  | .union ms => do
    let directives ← T.onDirectives ds
    let members ← onList T.onNamedType ms
    return (directives, members.map .union)
  | .enum vs => do
    let directives ← T.onDirectives ds
    let values ← onList T.onEnumValueDefinition vs
    return (directives, values.map .enum)
  | .inputObject fs => do
    let directives ← T.onDirectives ds
    let fields ← onList T.onInputDefinition fs
    return (directives, fields.map .inputObject)

/-- Transforms a type definition. -/
def onTypeDefinition (T : Transformer m) (d : TypeDefinition) : m (Replacement TypeDefinition) :=
  T.typeDefinition d <| T.typeDefinitionOf d.body.form d do
    let description ← onOption T.onString d.description
    let name ← T.onName d.name
    let (directives, body) ← T.onTypeBody d.directives d.body
    if description.isNone && name.isNone && directives.isNone && body.isNone then return none
    else return some { d with
      description := description.applyTo d.description, name := name.applyTo d.name,
      directives := directives.applyTo d.directives, body := body.applyTo d.body }

/-- Transforms additions to a type. -/
def onTypeExtension (T : Transformer m) (d : TypeExtension) : m (Replacement TypeExtension) :=
  T.typeExtension d <| T.typeExtensionOf d.body.form d do
    let name ← T.onName d.name
    let (directives, body) ← T.onTypeBody d.directives d.body
    if name.isNone && directives.isNone && body.isNone then return none
    else return some { d with
      name := name.applyTo d.name, directives := directives.applyTo d.directives,
      body := body.applyTo d.body }

/-- Transforms a directive definition. -/
def onDirectiveDefinition (T : Transformer m) (d : DirectiveDefinition) :
    m (Replacement DirectiveDefinition) :=
  T.directiveDefinition d do
    let description ← onOption T.onString d.description
    let name ← T.onName d.name
    let arguments ← onList T.onInputDefinition d.arguments
    let locations ← onList T.onName d.locations
    if description.isNone && name.isNone && arguments.isNone && locations.isNone then
      return none
    else return some { d with
      description := description.applyTo d.description, name := name.applyTo d.name,
      arguments := arguments.applyTo d.arguments, locations := locations.applyTo d.locations }

/-- Transforms a definition. -/
def onDefinition (T : Transformer m) (d : Definition) : m (Replacement Definition) :=
  T.definition d do
    match d with
    | .operation d => return (← T.onOperation d).map .operation
    | .fragment d => return (← T.onFragment d).map .fragment
    | .schema d => return (← T.onSchema d).map .schema
    | .schemaExtension d => return (← T.onSchemaExtension d).map .schemaExtension
    | .type d => return (← T.onTypeDefinition d).map .type
    | .typeExtension d => return (← T.onTypeExtension d).map .typeExtension
    | .directive d => return (← T.onDirectiveDefinition d).map .directive

/-- Transforms a document. -/
def onDocument (T : Transformer m) (d : Document) : m (Replacement Document) :=
  T.document d do
    let definitions ← onList T.onDefinition d.definitions
    return definitions.map fun definitions => { d with definitions }

end Transformer
end GraphQL
