import GraphQL.Ast.OperationKind
import GraphQL.Ast.Selection

/-! Definitions, extensions and documents. -/
namespace GraphQL

structure VariableDefinition where
  origin : Option Origin
  name : Name
  type : TypeRef
  default : Option Value
  directives : List Directive

structure OperationDefinition where
  origin : Option Origin
  kind : OperationKind
  name : Option Name
  variableDefinitions : List VariableDefinition
  directives : List Directive
  selectionSet : SelectionSet

structure FragmentDefinition where
  origin : Option Origin
  name : Name
  typeCondition : NamedType
  directives : List Directive
  selectionSet : SelectionSet

structure RootType where
  origin : Option Origin
  operation : OperationKind
  type : NamedType

structure SchemaDefinition where
  origin : Option Origin
  description : Option StringValue
  directives : List Directive
  rootTypes : List RootType

structure SchemaExtension where
  origin : Option Origin
  directives : List Directive
  rootTypes : List RootType

/-- An input: an argument of a field or a directive, or a field of an input object. -/
structure InputDefinition where
  origin : Option Origin
  description : Option StringValue
  name : Name
  type : TypeRef
  default : Option Value
  directives : List Directive

structure FieldDefinition where
  origin : Option Origin
  description : Option StringValue
  name : Name
  arguments : List InputDefinition
  type : TypeRef
  directives : List Directive

structure EnumValueDefinition where
  origin : Option Origin
  description : Option StringValue
  name : Name
  directives : List Directive

/-- The forms of types, each with a keyword. -/
inductive TypeForm where
  | scalar
  | object
  | interface
  | union
  | enum
  | inputObject
  deriving DecidableEq

namespace TypeForm

def all : List TypeForm := [scalar, object, interface, union, enum, inputObject]

def keyword : TypeForm → String
  | scalar => "scalar"
  | object => "type"
  | interface => "interface"
  | union => "union"
  | enum => "enum"
  | inputObject => "input"

/-- A form as messages and statistics name it. -/
def label : TypeForm → String
  | scalar => "Scalar"
  | object => "Object"
  | interface => "Interface"
  | union => "Union"
  | enum => "Enum"
  | inputObject => "InputObject"

end TypeForm

/-- What a type has besides a name and directives. -/
inductive TypeBody where
  | scalar
  | object (interfaces : List NamedType) (fields : List FieldDefinition)
  | interface (interfaces : List NamedType) (fields : List FieldDefinition)
  | union (members : List NamedType)
  | enum (values : List EnumValueDefinition)
  | inputObject (fields : List InputDefinition)

namespace TypeBody

/-- The fields that answers can have; only objects and interfaces have some. -/
def outputFields : TypeBody → List FieldDefinition
  | object _ fields | interface _ fields => fields
  | _ => []

/-- Types without anything to select in them. -/
def isLeaf : TypeBody → Bool
  | scalar | enum _ => true
  | _ => false

/-- A body that says nothing. -/
def isEmpty : TypeBody → Bool
  | scalar => true
  | object interfaces fields | interface interfaces fields => interfaces.isEmpty && fields.isEmpty
  | union members => members.isEmpty
  | enum values => values.isEmpty
  | inputObject fields => fields.isEmpty

end TypeBody

/-- The form of a type with a given body. -/
def TypeBody.form : TypeBody → TypeForm
  | .scalar => .scalar
  | .object _ _ => .object
  | .interface _ _ => .interface
  | .union _ => .union
  | .enum _ => .enum
  | .inputObject _ => .inputObject

structure TypeDefinition where
  origin : Option Origin
  description : Option StringValue
  name : Name
  directives : List Directive
  body : TypeBody

structure TypeExtension where
  origin : Option Origin
  name : Name
  directives : List Directive
  body : TypeBody

/-- A directive. Its locations are names of the places where it may be applied. -/
structure DirectiveDefinition where
  origin : Option Origin
  description : Option StringValue
  name : Name
  arguments : List InputDefinition
  isRepeatable : Bool
  locations : List Name

inductive Definition where
  | operation (operation : OperationDefinition)
  | fragment (fragment : FragmentDefinition)
  | schema (schema : SchemaDefinition)
  | schemaExtension (schema : SchemaExtension)
  | type (type : TypeDefinition)
  | typeExtension (type : TypeExtension)
  | directive (directive : DirectiveDefinition)

namespace Definition

def isExecutable : Definition → Bool
  | operation _ | fragment _ => true
  | _ => false

/-- Definitions of the schema, of types and of directives. -/
def isTypeSystemDefinition : Definition → Bool
  | schema _ | type _ | directive _ => true
  | _ => false

/-- Extensions of the schema and of types. -/
def isTypeSystemExtension : Definition → Bool
  | schemaExtension _ | typeExtension _ => true
  | _ => false

/-- The operation that a definition is, if it is one. -/
def operation? : Definition → Option OperationDefinition
  | operation o => some o
  | _ => none

/-- The fragment that a definition is, if it is one. -/
def fragment? : Definition → Option FragmentDefinition
  | fragment f => some f
  | _ => none

end Definition

structure Document where
  origin : Option Origin
  definitions : List Definition

namespace Document

def operations (d : Document) : List OperationDefinition := d.definitions.filterMap (·.operation?)

def fragments (d : Document) : List FragmentDefinition := d.definitions.filterMap (·.fragment?)

/-- The first operation with a given name, or the first without one. -/
def operation? (d : Document) (name : Option String) : Option OperationDefinition :=
  d.operations.find? (·.name.map (·.value) == name)

def fragment? (d : Document) (name : String) : Option FragmentDefinition :=
  d.fragments.find? (·.name.value == name)

/-- The first fragment of each name, in the order of the document. -/
def distinctFragments (d : Document) : List FragmentDefinition :=
  d.fragments.foldl (fun seen f =>
    if seen.any (·.name.value == f.name.value) then seen else seen ++ [f]) []

end Document
end GraphQL
