import GraphQL.Ast.Definition
import GraphQL.Tree

/-! Nodes: every piece of syntax under one type, and the tree that a piece of syntax forms. Children
stand in the order in which they are written. -/
namespace GraphQL

inductive ValueKind where
  | boolean
  | enum
  | float
  | int
  | list
  | null
  | object
  | string
  | variable
  deriving DecidableEq

def ValueKind.label : ValueKind → String
  | .boolean => "Boolean"
  | .enum => "Enum"
  | .float => "Float"
  | .int => "Int"
  | .list => "List"
  | .null => "Null"
  | .object => "Object"
  | .string => "String"
  | .variable => "Variable"

def Value.kind : Value → ValueKind
  | .boolean _ _ => .boolean
  | .enum _ _ => .enum
  | .float _ _ => .float
  | .int _ _ => .int
  | .list _ _ => .list
  | .null _ => .null
  | .object _ _ => .object
  | .string _ => .string
  | .variable _ _ => .variable

inductive Kind where
  | document
  | operation
  | fragment
  | variableDefinition
  | selectionSet
  | field
  | spread
  | inlineFragment
  | argument
  | directive
  | value (kind : ValueKind)
  | objectField
  | namedType
  | listType
  | nonNullType
  | schema
  | schemaExtension
  | rootType
  | typeDefinition (form : TypeForm)
  | typeExtension (form : TypeForm)
  | enumValueDefinition
  | directiveDefinition
  | fieldDefinition
  | inputDefinition
  | name
  deriving DecidableEq

def Kind.label : Kind → String
  | .document => "Document"
  | .operation => "OperationDefinition"
  | .fragment => "FragmentDefinition"
  | .variableDefinition => "VariableDefinition"
  | .selectionSet => "SelectionSet"
  | .field => "FieldSelection"
  | .spread => "FragmentSelection"
  | .inlineFragment => "InlineFragmentSelection"
  | .argument => "Argument"
  | .directive => "Directive"
  | .value kind => kind.label ++ "Value"
  | .objectField => "ObjectValueField"
  | .namedType => "NamedTypeRef"
  | .listType => "ListTypeRef"
  | .nonNullType => "NonNullTypeRef"
  | .schema => "SchemaDefinition"
  | .schemaExtension => "SchemaExtension"
  | .rootType => "OperationTypeDefinition"
  | .typeDefinition form => form.label ++ "TypeDefinition"
  | .typeExtension form => form.label ++ "TypeExtension"
  | .enumValueDefinition => "EnumValueDefinition"
  | .directiveDefinition => "DirectiveDefinition"
  | .fieldDefinition => "FieldDefinition"
  | .inputDefinition => "ArgumentDefinition"
  | .name => "Name"

/-- A piece of syntax of any sort. -/
inductive Node where
  | document (node : Document)
  | operation (node : OperationDefinition)
  | fragment (node : FragmentDefinition)
  | variableDefinition (node : VariableDefinition)
  | selectionSet (node : SelectionSet)
  | field (node : Field)
  | spread (node : FragmentSpread)
  | inlineFragment (node : InlineFragment)
  | argument (node : Argument)
  | directive (node : Directive)
  | value (node : Value)
  | objectField (node : ObjectField)
  | type (node : TypeRef)
  | schema (node : SchemaDefinition)
  | schemaExtension (node : SchemaExtension)
  | rootType (node : RootType)
  | typeDefinition (node : TypeDefinition)
  | typeExtension (node : TypeExtension)
  | enumValueDefinition (node : EnumValueDefinition)
  | directiveDefinition (node : DirectiveDefinition)
  | fieldDefinition (node : FieldDefinition)
  | inputDefinition (node : InputDefinition)
  | name (node : Name)

namespace Node

def kind : Node → Kind
  | document _ => .document
  | operation _ => .operation
  | fragment _ => .fragment
  | variableDefinition _ => .variableDefinition
  | selectionSet _ => .selectionSet
  | field _ => .field
  | spread _ => .spread
  | inlineFragment _ => .inlineFragment
  | argument _ => .argument
  | directive _ => .directive
  | value v => .value v.kind
  | objectField _ => .objectField
  | type (.nullable (.named _)) => .namedType
  | type (.nullable (.list _ _)) => .listType
  | type (.nonNull _ _) => .nonNullType
  | schema _ => .schema
  | schemaExtension _ => .schemaExtension
  | rootType _ => .rootType
  | typeDefinition t => .typeDefinition t.body.form
  | typeExtension t => .typeExtension t.body.form
  | enumValueDefinition _ => .enumValueDefinition
  | directiveDefinition _ => .directiveDefinition
  | fieldDefinition _ => .fieldDefinition
  | inputDefinition _ => .inputDefinition
  | name _ => .name

def origin? : Node → Option Origin
  | document n => n.origin
  | operation n => n.origin
  | fragment n => n.origin
  | variableDefinition n => n.origin
  | selectionSet n => n.origin
  | field n => n.origin
  | spread n => n.origin
  | inlineFragment n => n.origin
  | argument n => n.origin
  | directive n => n.origin
  | value v => v.origin?
  | objectField n => n.origin
  | type t => t.origin?
  | schema n => n.origin
  | schemaExtension n => n.origin
  | rootType n => n.origin
  | typeDefinition n => n.origin
  | typeExtension n => n.origin
  | enumValueDefinition n => n.origin
  | directiveDefinition n => n.origin
  | fieldDefinition n => n.origin
  | inputDefinition n => n.origin
  | name n => n.origin

end Node

def Selection.node : Selection → Node
  | .field f => .field f
  | .spread s => .spread s
  | .inlineFragment f => .inlineFragment f

def Definition.node : Definition → Node
  | .operation d => .operation d
  | .fragment d => .fragment d
  | .schema d => .schema d
  | .schemaExtension d => .schemaExtension d
  | .type d => .typeDefinition d
  | .typeExtension d => .typeExtension d
  | .directive d => .directiveDefinition d

def Name.tree (n : Name) : Tree Node := .leaf (.name n)

def StringValue.tree (s : StringValue) : Tree Node := .leaf (.value (.string s))

def NamedType.tree (t : NamedType) : Tree Node :=
  .node (.type (.nullable (.named t))) [t.name.tree]

mutual

def Value.tree : Value → Tree Node
  | .boolean o b => .leaf (.value (.boolean o b))
  | .enum o w => .leaf (.value (.enum o w))
  | .float o x => .leaf (.value (.float o x))
  | .int o n => .leaf (.value (.int o n))
  | .list o vs => .node (.value (.list o vs)) (Value.trees vs)
  | .null o => .leaf (.value (.null o))
  | .object o fs => .node (.value (.object o fs)) (ObjectField.trees fs)
  | .string s => s.tree
  | .variable o n => .node (.value (.variable o n)) [n.tree]

def Value.trees : List Value → List (Tree Node)
  | [] => []
  | v :: vs => v.tree :: Value.trees vs

def ObjectField.tree : ObjectField → Tree Node
  | ⟨o, n, v⟩ => .node (.objectField ⟨o, n, v⟩) [n.tree, v.tree]

def ObjectField.trees : List ObjectField → List (Tree Node)
  | [] => []
  | f :: fs => f.tree :: ObjectField.trees fs

end

mutual

def NullableType.tree : NullableType → Tree Node
  | .named t => t.tree
  | .list o e => .node (.type (.nullable (.list o e))) [e.tree]

def TypeRef.tree : TypeRef → Tree Node
  | .nullable t => t.tree
  | .nonNull o t => .node (.type (.nonNull o t)) [t.tree]

end

def Argument.tree (a : Argument) : Tree Node := .node (.argument a) [a.name.tree, a.value.tree]

def Directive.tree (d : Directive) : Tree Node :=
  .node (.directive d) (d.name.tree :: d.arguments.map (·.tree))

def FragmentSpread.tree (s : FragmentSpread) : Tree Node :=
  .node (.spread s) (s.name.tree :: s.directives.map (·.tree))

mutual

def Selection.tree : Selection → Tree Node
  | .field f => f.tree
  | .spread s => s.tree
  | .inlineFragment f => f.tree

def Field.tree : Field → Tree Node
  | ⟨o, aliasName, name, arguments, directives, selectionSet⟩ =>
    .node (.field ⟨o, aliasName, name, arguments, directives, selectionSet⟩)
      (aliasName.toList.map (·.tree) ++ [name.tree] ++ arguments.map (·.tree) ++
        directives.map (·.tree) ++ SelectionSet.optionalTree selectionSet)

def InlineFragment.tree : InlineFragment → Tree Node
  | ⟨o, condition, directives, selectionSet⟩ =>
    .node (.inlineFragment ⟨o, condition, directives, selectionSet⟩)
      (condition.toList.map (·.tree) ++ directives.map (·.tree) ++ [selectionSet.tree])

def SelectionSet.tree : SelectionSet → Tree Node
  | ⟨o, selections⟩ => .node (.selectionSet ⟨o, selections⟩) (Selection.trees selections)

def SelectionSet.optionalTree : Option SelectionSet → List (Tree Node)
  | none => []
  | some s => [s.tree]

def Selection.trees : List Selection → List (Tree Node)
  | [] => []
  | s :: ss => s.tree :: Selection.trees ss

end

def VariableDefinition.tree (d : VariableDefinition) : Tree Node :=
  .node (.variableDefinition d)
    ([d.name.tree, d.type.tree] ++ d.default.toList.map (·.tree) ++ d.directives.map (·.tree))

def OperationDefinition.tree (d : OperationDefinition) : Tree Node :=
  .node (.operation d)
    (d.name.toList.map (·.tree) ++ d.variableDefinitions.map (·.tree) ++
      d.directives.map (·.tree) ++ [d.selectionSet.tree])

def FragmentDefinition.tree (d : FragmentDefinition) : Tree Node :=
  .node (.fragment d)
    ([d.name.tree, d.typeCondition.tree] ++ d.directives.map (·.tree) ++ [d.selectionSet.tree])

def RootType.tree (t : RootType) : Tree Node := .node (.rootType t) [t.type.tree]

def SchemaDefinition.tree (d : SchemaDefinition) : Tree Node :=
  .node (.schema d)
    (d.description.toList.map (·.tree) ++ d.directives.map (·.tree) ++ d.rootTypes.map (·.tree))

def SchemaExtension.tree (d : SchemaExtension) : Tree Node :=
  .node (.schemaExtension d) (d.directives.map (·.tree) ++ d.rootTypes.map (·.tree))

def InputDefinition.tree (d : InputDefinition) : Tree Node :=
  .node (.inputDefinition d)
    (d.description.toList.map (·.tree) ++ [d.name.tree, d.type.tree] ++
      d.default.toList.map (·.tree) ++ d.directives.map (·.tree))

def FieldDefinition.tree (d : FieldDefinition) : Tree Node :=
  .node (.fieldDefinition d)
    (d.description.toList.map (·.tree) ++ [d.name.tree] ++ d.arguments.map (·.tree) ++
      [d.type.tree] ++ d.directives.map (·.tree))

def EnumValueDefinition.tree (d : EnumValueDefinition) : Tree Node :=
  .node (.enumValueDefinition d)
    (d.description.toList.map (·.tree) ++ [d.name.tree] ++ d.directives.map (·.tree))

/-- What stands in a type between its name and its directives. -/
def TypeBody.leadingTrees : TypeBody → List (Tree Node)
  | .object interfaces _ | .interface interfaces _ => interfaces.map (·.tree)
  | _ => []

/-- What stands in a type after its directives. -/
def TypeBody.trailingTrees : TypeBody → List (Tree Node)
  | .scalar => []
  | .object _ fields | .interface _ fields => fields.map (·.tree)
  | .union members => members.map (·.tree)
  | .enum values => values.map (·.tree)
  | .inputObject fields => fields.map (·.tree)

def TypeDefinition.tree (d : TypeDefinition) : Tree Node :=
  .node (.typeDefinition d)
    (d.description.toList.map (·.tree) ++ [d.name.tree] ++ d.body.leadingTrees ++
      d.directives.map (·.tree) ++ d.body.trailingTrees)

def TypeExtension.tree (d : TypeExtension) : Tree Node :=
  .node (.typeExtension d)
    ([d.name.tree] ++ d.body.leadingTrees ++ d.directives.map (·.tree) ++ d.body.trailingTrees)

def DirectiveDefinition.tree (d : DirectiveDefinition) : Tree Node :=
  .node (.directiveDefinition d)
    (d.description.toList.map (·.tree) ++ [d.name.tree] ++ d.arguments.map (·.tree) ++
      d.locations.map (·.tree))

def Definition.tree : Definition → Tree Node
  | .operation d => d.tree
  | .fragment d => d.tree
  | .schema d => d.tree
  | .schemaExtension d => d.tree
  | .type d => d.tree
  | .typeExtension d => d.tree
  | .directive d => d.tree

def Document.tree (d : Document) : Tree Node := .node (.document d) (d.definitions.map (·.tree))

namespace Node

def tree : Node → Tree Node
  | document n => n.tree
  | operation n => n.tree
  | fragment n => n.tree
  | variableDefinition n => n.tree
  | selectionSet n => n.tree
  | field n => n.tree
  | spread n => n.tree
  | inlineFragment n => n.tree
  | argument n => n.tree
  | directive n => n.tree
  | value n => n.tree
  | objectField n => n.tree
  | type n => n.tree
  | schema n => n.tree
  | schemaExtension n => n.tree
  | rootType n => n.tree
  | typeDefinition n => n.tree
  | typeExtension n => n.tree
  | enumValueDefinition n => n.tree
  | directiveDefinition n => n.tree
  | fieldDefinition n => n.tree
  | inputDefinition n => n.tree
  | name n => n.tree

/-- The nodes right below a node. -/
def children (n : Node) : List Node := n.tree.children.map (·.label)

/-- The source text that a node covers; empty for a node without an origin. -/
def text (n : Node) : String := (n.origin?.map (·.text)).getD ""

/-- The label at the root of a node's tree is the node. -/
@[simp] theorem label_tree (n : Node) : n.tree.label = n := by
  cases n with
  | value v => cases v <;> simp only [tree] <;> unfold Value.tree <;> rfl
  | objectField f => obtain ⟨o, n, v⟩ := f; simp only [tree]; unfold ObjectField.tree; rfl
  | type t =>
    simp only [tree]
    match t with
    | .nullable (.named _) => unfold TypeRef.tree NullableType.tree; rfl
    | .nullable (.list _ _) => unfold TypeRef.tree NullableType.tree; rfl
    | .nonNull _ _ => unfold TypeRef.tree; rfl
  | field f => obtain ⟨_, _, _, _, _, _⟩ := f; simp only [tree]; unfold Field.tree; rfl
  | inlineFragment f => obtain ⟨_, _, _, _⟩ := f; simp only [tree]; unfold InlineFragment.tree; rfl
  | selectionSet s => obtain ⟨_, _⟩ := s; simp only [tree]; unfold SelectionSet.tree; rfl
  | _ => rfl

end Node
end GraphQL
