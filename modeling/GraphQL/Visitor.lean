import GraphQL.Node

/-! Visitors: handlers for sorts of nodes. A node goes to the most special handler there is. -/
namespace GraphQL

/-- Groups of sorts of nodes. -/
inductive Category where
  | definition
  | executableDefinition
  | typeSystemDefinition
  | typeDefinition
  | typeSystemExtension
  | typeExtension
  | selection
  | value
  | typeRef
  deriving DecidableEq

namespace Category

/-- The name of a group. -/
def label : Category → String
  | definition => "Definition"
  | executableDefinition => "ExecutableDefinition"
  | typeSystemDefinition => "TypeSystemDefinition"
  | typeDefinition => "TypeDefinition"
  | typeSystemExtension => "TypeSystemExtension"
  | typeExtension => "TypeExtension"
  | selection => "Selection"
  | value => "Value"
  | typeRef => "TypeRef"

/-- The groups that contain a group, the smallest first. -/
def ancestors : Category → List Category
  | executableDefinition => [definition]
  | typeSystemDefinition => [definition]
  | typeDefinition => [typeSystemDefinition, definition]
  | typeSystemExtension => [definition]
  | typeExtension => [typeSystemExtension, definition]
  | _ => []

end Category

/-- The smallest group that a sort of nodes belongs to. -/
def Kind.category? : Kind → Option Category
  | .operation | .fragment => some .executableDefinition
  | .schema | .directiveDefinition => some .typeSystemDefinition
  | .typeDefinition _ => some .typeDefinition
  | .schemaExtension => some .typeSystemExtension
  | .typeExtension _ => some .typeExtension
  | .field | .spread | .inlineFragment => some .selection
  | .value _ => some .value
  | .namedType | .listType | .nonNullType => some .typeRef
  | _ => none

/-- All groups that a sort of nodes belongs to, the smallest first. -/
def Kind.categories (k : Kind) : List Category :=
  match k.category? with
  | none => []
  | some c => c :: c.ancestors

/-- What a handler is for: one sort of nodes, or a group. -/
inductive Role where
  | kind (kind : Kind)
  | category (category : Category)
  deriving DecidableEq

/-- The roles of a sort of nodes, the most special first. -/
def Kind.roles (k : Kind) : List Role := .kind k :: k.categories.map .category

/-- Handlers of nodes with some data; every node that no role takes goes to `node`. -/
structure Visitor (m : Type → Type) (δ ω : Type) where
  role? : Role → Option (Node → δ → m ω)
  node : Node → δ → m ω

namespace Visitor

variable {m : Type → Type} {δ ω : Type}

/-- Gives a node to the handler of its most special role. -/
def visit (v : Visitor m δ ω) (n : Node) (data : δ) : m ω :=
  match n.kind.roles.findSome? v.role? with
  | some handler => handler n data
  | none => v.node n data

end Visitor
end GraphQL
