import GraphQL.Proofs.Rules
import GraphQL.Proofs.Spelling
import GraphQL.Proofs.Transformer.Rebuilding

/-! The nodes that a transformer comes to. What stands right below syntax in a slot are the children
of its node, in their order, so the hooks of the sorts are called for all nodes in preorder. -/
namespace GraphQL

namespace Slot

/-- Slots for a group of sorts. What stands in them is met again in a slot for its own sort. -/
def isGroup : Slot → Bool
  | definition | selection | value | type | markedType | typeDefinition | typeExtension => true
  | _ => false

/-- Syntax in a slot, as a node. -/
def node : (r : Slot) → r.Syntax → Node
  | document, d => .document d
  | definition, d => d.node
  | operation, d => .operation d
  | fragment, d => .fragment d
  | variableDefinition, d => .variableDefinition d
  | selectionSet, s => .selectionSet s
  | selection, s => s.node
  | field, f => .field f
  | spread, s => .spread s
  | inlineFragment, f => .inlineFragment f
  | argument, a => .argument a
  | directive, d => .directive d
  | value, v => .value v
  | valueOf _, v => .value v
  | string, s => .value (.string s)
  | objectField, f => .objectField f
  | type, t => .type t
  | markedType, t => .type (.nullable t)
  | namedType, t => .type (.nullable (.named t))
  | listType, t => .type (.nullable t)
  | nonNullType, t => .type t
  | schema, d => .schema d
  | schemaExtension, d => .schemaExtension d
  | rootType, t => .rootType t
  | typeDefinition, d => .typeDefinition d
  | typeDefinitionOf _, d => .typeDefinition d
  | typeExtension, d => .typeExtension d
  | typeExtensionOf _, d => .typeExtension d
  | enumValueDefinition, d => .enumValueDefinition d
  | directiveDefinition, d => .directiveDefinition d
  | fieldDefinition, d => .fieldDefinition d
  | inputDefinition, d => .inputDefinition d
  | name, n => .name n

end Slot

/-- The items of a row, as nodes. -/
def Row.nodes (row : Row) : List Node := row.items.map row.slot.node

namespace Row

variable (r : Slot)

@[simp] theorem nodes_many (as : List r.Syntax) : (many r as).nodes = as.map r.node := rfl

@[simp] theorem nodes_single (a : r.Syntax) : (single r a).nodes = [r.node a] := rfl

@[simp] theorem nodes_optional (a : Option r.Syntax) :
    (optional r a).nodes = a.toList.map r.node := rfl

end Row

namespace Slot

/-- What stands right below syntax, as nodes. -/
def nodes (r : Slot) (a : r.Syntax) : List Node := (r.rows a).flatMap Row.nodes

/-- Right below a group there is the syntax itself, in the slot for its sort. -/
theorem nodes_of_group {r : Slot} (group : r.isGroup) (a : r.Syntax) : r.nodes a = [r.node a] := by
  cases r
  case definition | selection | value => cases a <;> rfl
  case type => rcases a with ⟨_ | _⟩ | _ <;> rfl
  case markedType => cases a <;> rfl
  case typeDefinition | typeExtension => rfl
  all_goals simp [isGroup] at group

theorem tree_nullable (t : NullableType) : (TypeRef.nullable t).tree = t.tree := by
  rw [TypeRef.tree]

theorem tree_named (t : NamedType) : (NullableType.named t).tree = t.tree := by
  rw [NullableType.tree]

theorem tree_string (s : StringValue) : (Value.string s).tree = s.tree := by rw [Value.tree]

theorem tree_selection (s : Selection) : s.node.tree = s.tree := by
  cases s <;> simp only [Selection.node, Node.tree] <;> rw [Selection.tree]

theorem tree_definition (d : Definition) : d.node.tree = d.tree := by cases d <;> rfl

theorem nodes_body (ds : List Directive) (body : TypeBody) :
    ((bodyRows ds body).flatMap Row.nodes).map Node.tree =
      body.leadingTrees ++ ds.map (·.tree) ++ body.trailingTrees := by
  cases body <;> simp [bodyRows, TypeBody.leadingTrees, TypeBody.trailingTrees, node, Node.tree,
    tree_nullable, tree_named, Function.comp_def]

/-- Below the node that syntax is there are the nodes of what stands right below it, in that order.
-/
theorem tree_node {r : Slot} (sort : r.isGroup = false) (a : r.Syntax) (admits : r.Admits a) :
    (r.node a).tree = .node (r.node a) ((r.nodes a).map Node.tree) := by
  cases r
  case definition | selection | value | type | markedType | typeDefinition | typeExtension =>
    simp [isGroup] at sort
  case valueOf k =>
    cases a <;> simp [node, Node.tree, nodes, rows, Value.tree, Value.trees_eq_map,
      ObjectField.trees_eq_map, StringValue.tree, Tree.leaf, Function.comp_def]
  case listType =>
    obtain ⟨o, e, rfl⟩ := admits
    simp [node, Node.tree, nodes, rows, tree_nullable, NullableType.tree]
  case nonNullType =>
    cases a with
    | nullable t => cases admits
    | nonNull o t => simp [node, Node.tree, nodes, rows, TypeRef.tree]
  case objectField =>
    cases a
    simp [node, Node.tree, nodes, rows, ObjectField.tree]
  case field =>
    obtain ⟨o, aliasName, name, arguments, directives, selectionSet⟩ := a
    cases selectionSet <;>
      simp [node, Node.tree, nodes, rows, Field.tree, SelectionSet.optionalTree, Function.comp_def]
  case inlineFragment =>
    cases a
    simp [node, Node.tree, nodes, rows, InlineFragment.tree, tree_nullable, tree_named,
      Function.comp_def]
  case selectionSet =>
    obtain ⟨o, selections⟩ := a
    have below : (nodes selectionSet ⟨o, selections⟩).map Node.tree =
        Selection.trees selections := by
      simp [nodes, rows, node, tree_selection, Selection.trees_eq_map]
    rw [below, node, Node.tree, SelectionSet.tree]
  case document =>
    have below : (nodes document a).map Node.tree = a.definitions.map (·.tree) := by
      simp [nodes, rows, node, tree_definition]
    rw [below]
    rfl
  case typeDefinitionOf | typeExtensionOf =>
    simp [node, Node.tree, nodes, rows, nodes_body, tree_string, TypeDefinition.tree,
      TypeExtension.tree, Function.comp_def]
  all_goals
    simp [node, Node.tree, nodes, rows, tree_nullable, tree_named, tree_string, Name.tree,
      StringValue.tree, NamedType.tree, Argument.tree, Directive.tree, FragmentSpread.tree,
      VariableDefinition.tree, OperationDefinition.tree, FragmentDefinition.tree, RootType.tree,
      SchemaDefinition.tree, SchemaExtension.tree, InputDefinition.tree, FieldDefinition.tree,
      EnumValueDefinition.tree, DirectiveDefinition.tree, Tree.leaf, Function.comp_def]

/-- What stands right below syntax are the children of its node. -/
theorem children_node {r : Slot} (sort : r.isGroup = false) (a : r.Syntax) (admits : r.Admits a) :
    (r.node a).children = r.nodes a := by
  rw [Node.children, tree_node sort a admits, Tree.children, List.map_map]
  exact (List.map_congr_left fun n _ => n.label_tree).trans (List.map_id _)

end Slot

namespace Node

/-- Every node is syntax in a slot for its sort. -/
theorem exists_slot (n : Node) :
    ∃ (r : Slot) (a : r.Syntax), r.isGroup = false ∧ r.Admits a ∧ r.node a = n := by
  cases n with
  | document d => exact ⟨.document, d, rfl, trivial, rfl⟩
  | operation d => exact ⟨.operation, d, rfl, trivial, rfl⟩
  | fragment d => exact ⟨.fragment, d, rfl, trivial, rfl⟩
  | variableDefinition d => exact ⟨.variableDefinition, d, rfl, trivial, rfl⟩
  | selectionSet s => exact ⟨.selectionSet, s, rfl, trivial, rfl⟩
  | field f => exact ⟨.field, f, rfl, trivial, rfl⟩
  | spread s => exact ⟨.spread, s, rfl, trivial, rfl⟩
  | inlineFragment f => exact ⟨.inlineFragment, f, rfl, trivial, rfl⟩
  | argument a => exact ⟨.argument, a, rfl, trivial, rfl⟩
  | directive d => exact ⟨.directive, d, rfl, trivial, rfl⟩
  | value v => exact ⟨.valueOf v.kind, v, rfl, rfl, rfl⟩
  | objectField f => exact ⟨.objectField, f, rfl, trivial, rfl⟩
  | type t =>
    match t with
    | .nullable (.named t) => exact ⟨.namedType, t, rfl, trivial, rfl⟩
    | .nullable (.list o e) => exact ⟨.listType, .list o e, rfl, ⟨o, e, rfl⟩, rfl⟩
    | .nonNull o t => exact ⟨.nonNullType, .nonNull o t, rfl, rfl, rfl⟩
  | schema d => exact ⟨.schema, d, rfl, trivial, rfl⟩
  | schemaExtension d => exact ⟨.schemaExtension, d, rfl, trivial, rfl⟩
  | rootType t => exact ⟨.rootType, t, rfl, trivial, rfl⟩
  | typeDefinition d => exact ⟨.typeDefinitionOf d.body.form, d, rfl, rfl, rfl⟩
  | typeExtension d => exact ⟨.typeExtensionOf d.body.form, d, rfl, rfl, rfl⟩
  | enumValueDefinition d => exact ⟨.enumValueDefinition, d, rfl, trivial, rfl⟩
  | directiveDefinition d => exact ⟨.directiveDefinition, d, rfl, trivial, rfl⟩
  | fieldDefinition d => exact ⟨.fieldDefinition, d, rfl, trivial, rfl⟩
  | inputDefinition d => exact ⟨.inputDefinition, d, rfl, trivial, rfl⟩
  | name n => exact ⟨.name, n, rfl, trivial, rfl⟩

/-- The tree of a node is made of the trees of its children. -/
theorem tree_eq_children (n : Node) : n.tree = .node n (n.children.map tree) := by
  obtain ⟨r, a, sort, admits, rfl⟩ := n.exists_slot
  rw [Slot.children_node sort a admits, Slot.tree_node sort a admits]

/-- The nodes below a node, in preorder by its children. -/
theorem preorder_tree (n : Node) :
    n.tree.preorder = n :: n.children.flatMap fun c => c.tree.preorder := by
  rw [tree_eq_children, Tree.preorder, Tree.preorderOf_eq_flatMap, List.flatMap_map]

/-- What holds of a node if it holds of its children holds of all nodes. -/
@[elab_as_elim]
theorem children_induction {motive : Node → Prop}
    (node : ∀ n, (∀ c ∈ n.children, motive c) → motive n) (n : Node) : motive n := by
  generalize whole : n.tree = t
  induction t using Tree.below_induction generalizing n with
  | node a ts ih =>
    rw [tree_eq_children, Tree.node.injEq] at whole
    exact node n fun c below => ih c.tree (whole.2 ▸ List.mem_map_of_mem below) c rfl

/-- What stands below a node that stands below another one stands below that one, too. -/
theorem preorder_subset {m n : Node} (inside : m ∈ n.tree.preorder) :
    m.tree.preorder ⊆ n.tree.preorder := by
  induction n using children_induction with
  | node n ih =>
    rw [preorder_tree n, List.mem_cons, List.mem_flatMap] at inside
    rcases inside with rfl | ⟨c, below, inside⟩
    · exact List.Subset.refl _
    · rw [preorder_tree n]
      intro k hk
      exact List.mem_cons_of_mem _ (List.mem_flatMap.mpr ⟨c, below, ih c below inside hk⟩)

/-- The nodes below a node, in postorder by its children. -/
theorem postorder_tree (n : Node) :
    n.tree.postorder = (n.children.flatMap fun c => c.tree.postorder) ++ [n] := by
  rw [tree_eq_children, Tree.postorder, Tree.postorderOf_eq_flatMap, List.flatMap_map]

end Node

namespace Transformer

variable {m : Type → Type} [Monad m]

/-- The hook that takes note of a node and only transforms its children. -/
def noted (note : Node → m Unit) (r : Slot) : Hook m r.Syntax := fun a inner => do
  note (r.node a)
  inner

/-- A transformer that takes note of all nodes and changes nothing. -/
def noting (note : Node → m Unit) : Transformer m where
  document := noted note .document
  operation := noted note .operation
  fragment := noted note .fragment
  variableDefinition := noted note .variableDefinition
  selectionSet := noted note .selectionSet
  field := noted note .field
  spread := noted note .spread
  inlineFragment := noted note .inlineFragment
  argument := noted note .argument
  directive := noted note .directive
  valueOf kind := noted note (.valueOf kind)
  string := noted note .string
  objectField := noted note .objectField
  namedType := noted note .namedType
  listType := noted note .listType
  nonNullType := noted note .nonNullType
  schema := noted note .schema
  schemaExtension := noted note .schemaExtension
  rootType := noted note .rootType
  typeDefinitionOf form := noted note (.typeDefinitionOf form)
  typeExtensionOf form := noted note (.typeExtensionOf form)
  enumValueDefinition := noted note .enumValueDefinition
  directiveDefinition := noted note .directiveDefinition
  fieldDefinition := noted note .fieldDefinition
  inputDefinition := noted note .inputDefinition
  name := noted note .name

theorem hook_noting (note : Node → m Unit) (r : Slot) :
    (noting note).hook r = if r.isGroup then Hook.children else noted note r := by
  cases r <;> rfl

variable [LawfulMonad m]

/-- Actions in a row that each go over a list of their own go over all of them. -/
theorem mapM_forM {α β : Type} {note : Node → m Unit} {f : α → m β} {g : α → List Node} {k : α → β}
    {as : List α} (h : ∀ a ∈ as, f a = do (g a).forM note; return k a) :
    as.mapM f = do (as.flatMap g).forM note; return as.map k := by
  induction as with
  | nil => simp
  | cons a as ih =>
    rw [List.mapM_cons, h a List.mem_cons_self, ih fun b hb => h b (List.mem_cons_of_mem _ hb)]
    simp [List.forM_append]

/-- A transformer that takes note of nodes does so in preorder. -/
theorem step_noting (note : Node → m Unit) (r : Slot) (a : r.Syntax) (admits : r.Admits a) :
    (noting note).step r a = do
      (r.node a).tree.preorder.forM note
      return none := by
  have row : ∀ row ∈ r.rows a, (noting note).onRow row = do
      (row.nodes.flatMap fun n => n.tree.preorder).forM note
      return ⟨row, row.items.map fun _ => none⟩ := by
    intro row hrow
    rw [onRow, mapM_forM fun b hb => step_noting note row.slot b (r.rows_admits a row hrow b hb)]
    simp [Row.nodes, List.flatMap_map]
  have below : (noting note).below r a = do
      ((r.nodes a).flatMap fun n => n.tree.preorder).forM note
      return none := by
    have unchanged :
        r.patch a ((r.rows a).map fun row => ⟨row, row.items.map fun _ => none⟩) = none :=
      (r.patch_eq_none a _).2 (by simp)
    rw [Transformer.below, mapM_forM row]
    simp only [bind_assoc, pure_bind, unchanged, Slot.nodes, List.flatMap_assoc]
  rw [step_eq, hook_noting]
  split
  next group =>
    rw [Hook.children, below, Slot.nodes_of_group group]
    simp
  next sort =>
    have tree := Slot.tree_node (Bool.eq_false_iff.2 sort) a admits
    rw [noted, below, tree, Tree.preorder, Tree.preorderOf_eq_flatMap, List.flatMap_map]
    simp
termination_by r.size a
decreasing_by exact r.rows_below a row hrow b hb

end Transformer
end GraphQL
