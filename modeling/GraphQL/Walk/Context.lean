import GraphQL.Node
import GraphQL.Schema
import GraphQL.Walk.Traversal

/-! Contexts: what a schema and the nodes above say about the place of a node. -/
namespace GraphQL

/-- What is known about the place of a node. -/
structure Context where
  /-- The type of what stands here. -/
  type : Option ResolvedType
  /-- The type that fields are selected in. -/
  parentType : Option ResolvedType
  field : Option FieldDefinition
  fragment : Option FragmentDefinition
  operation : Option OperationDefinition
  selectionSet : Option SelectionSet

namespace Context

/-- Nothing is known. -/
def empty : Context := ⟨none, none, none, none, none, none⟩

/-- Whether nothing is known. -/
def isEmpty (c : Context) : Bool :=
  c.type.isNone && c.parentType.isNone && c.field.isNone && c.fragment.isNone &&
    c.operation.isNone && c.selectionSet.isNone

/-- The type of a name. -/
def named (s : Schema) (t : NamedType) : Option ResolvedType :=
  (s.type? t.name.value).map .named

/-- The context in a node, from the context around it. -/
def enter (s : Schema) (d : Document) (n : Node) (c : Context) : Context :=
  match n with
  | .operation o =>
    { c with operation := some o, fragment := none, type := (s.root? o.kind).map .named }
  | .fragment f => { c with fragment := some f, type := named s f.typeCondition }
  | .selectionSet x => { c with selectionSet := some x, parentType := c.type }
  | .field f =>
    let field := c.parentType.bind (s.field? · f.name.value)
    { c with field, type := field.bind (s.resolve? ·.type) }
  | .spread x =>
    let fragment := d.fragment? x.name.value
    { c with fragment, type := fragment.bind (named s ·.typeCondition) }
  | .inlineFragment f =>
    match f.typeCondition with
    | some t => { c with type := named s t }
    | none => c
  | .fieldDefinition x => { c with type := s.resolve? x.type }
  | .inputDefinition x => { c with type := s.resolve? x.type }
  | .variableDefinition x => { c with type := s.resolve? x.type }
  | .typeDefinition x => { c with type := (s.type? x.name.value).map .named }
  | .typeExtension x => { c with type := (s.type? x.name.value).map .named }
  | _ => c

end Context

/-- The state of a walk with contexts: the current context and the state of the visitor inside. -/
structure Contextual (σ : Type) where
  context : Context
  own : σ

namespace Contextual

variable {α δ σ : Type}

/-- A visitor that is told the context of each node. -/
abbrev Inner (α δ σ : Type) := Tree α → Context → δ → EStateM Interruption σ Unit

/-- What happens during a walk with contexts. -/
abbrev WalkM (α δ σ : Type) := TraversalM α δ (Contextual σ)

/-- Runs an action in another context; afterwards the old one holds again, also if the action is
interrupted. -/
def inContext (change : Context → Context) {β : Type} (act : WalkM α δ σ β) : WalkM α δ σ β :=
  fun s =>
    let saved := s.own.context
    let restore (s : Traversal α δ (Contextual σ)) : Traversal α δ (Contextual σ) :=
      { s with own := { s.own with context := saved } }
    match act { s with own := { s.own with context := change saved } } with
    | .ok b s => .ok b (restore s)
    | .error e s => .error e (restore s)

/-- Hands a node to the visitor inside, with the current context. -/
def handOver (inner : Inner α δ σ) (t : Tree α) (data : δ) : WalkM α δ σ Unit := fun s =>
  match inner t s.own.context data s.own.own with
  | .ok _ own => .ok () { s with own := { s.own with own } }
  | .error e own => .error e { s with own := { s.own with own } }

/-- Visits a node in its context: first the visitor inside, then the children. -/
def visit (s : Schema) (d : Document) (node : α → Node) (inner : Inner α δ σ)
    (go : Traversal.Goer α δ (Contextual σ) Unit) : Traversal.Goer α δ (Contextual σ) Unit :=
  fun t data => inContext (Context.enter s d (node t.label)) do
    handOver inner t data
    let _ ← Traversal.descend go

/-- Walks over a tree. Visits are inside each other as deep as the tree at most. -/
def walkFrom (s : Schema) (d : Document) (node : α → Node) (inner : Inner α δ σ) (t : Tree α)
    (data : δ) : WalkM α δ σ Unit :=
  Traversal.traverse (visit s d node inner) t.size t data

end Contextual
end GraphQL
