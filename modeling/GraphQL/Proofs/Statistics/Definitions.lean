import GraphQL.Proofs.Statistics.Counts
import GraphQL.Proofs.Transformer.Nodes

/-! Where definitions stand: right below a document and nowhere else. So the nodes of a group of
definitions in a document are as many as its definitions in that group. -/
namespace GraphQL

namespace Slot

/-- Slots in which neither documents nor definitions stand. -/
def isInner : Slot → Bool
  | document | definition | operation | fragment | schema | schemaExtension => false
  | typeDefinition | typeDefinitionOf _ | typeExtension | typeExtensionOf _ => false
  | directiveDefinition => false
  | _ => true

end Slot

/-- Sorts that are neither documents nor definitions. -/
def Kind.isInner (k : Kind) : Bool := k != .document && !k.isExecutable && !k.isTypeSystem

namespace Slot

theorem bodyRows_inner (ds : List Directive) (body : TypeBody) :
    Rows.Forall (fun s _ => s.isInner) (bodyRows ds body) := by
  cases body <;> simp [bodyRows, isInner]

/-- Only right below a document there are definitions. -/
theorem rows_inner {r : Slot} (sort : r.isGroup = false) (other : r ≠ document) (a : r.Syntax) :
    Rows.Forall (fun s _ => s.isInner) (r.rows a) := by
  cases r
  case definition | selection | value | type | markedType | typeDefinition | typeExtension =>
    simp [isGroup] at sort
  case document => exact absurd rfl other
  case valueOf | listType | nonNullType => cases a <;> simp [rows, isInner]
  case typeDefinitionOf =>
    have body := bodyRows_inner a.directives a.body
    exact Rows.forall_optional.mpr ⟨fun _ _ => rfl, Rows.forall_single.mpr ⟨rfl, body⟩⟩
  case typeExtensionOf =>
    exact Rows.forall_single.mpr ⟨rfl, bodyRows_inner a.directives a.body⟩
  all_goals simp [rows, isInner]

theorem kind_inner {r : Slot} (inner : r.isInner) (a : r.Syntax) : (r.node a).kind.isInner := by
  cases r
  case selection => cases a <;> rfl
  case type | nonNullType => rcases a with ⟨_ | _⟩ | _ <;> rfl
  case markedType | listType => cases a <;> rfl
  case document | definition | operation | fragment | schema | schemaExtension | typeDefinition |
      typeDefinitionOf | typeExtension | typeExtensionOf | directiveDefinition =>
    simp [isInner] at inner
  all_goals rfl

end Slot

namespace Node

variable {m n : Node}

/-- Below a node other than a document there are neither documents nor definitions. -/
theorem inner_children (other : n.kind ≠ .document) : ∀ c ∈ n.children, c.kind.isInner := by
  obtain ⟨r, a, sort, admits, rfl⟩ := n.exists_slot
  have another : r ≠ .document := by
    rintro rfl
    exact other rfl
  intro c inside
  rw [Slot.children_node sort a admits, Slot.nodes, List.mem_flatMap] at inside
  obtain ⟨row, hrow, inside⟩ := inside
  obtain ⟨b, hb, rfl⟩ := List.mem_map.mp inside
  exact Slot.kind_inner (Slot.rows_inner sort another a row hrow b hb) b

theorem inner_preorder (inner : n.kind.isInner) : ∀ m ∈ n.tree.preorder, m.kind.isInner := by
  induction n using children_induction with
  | node n ih =>
    have other : n.kind ≠ .document := by
      intro same
      rw [same] at inner
      cases inner
    intro m inside
    rw [preorder_tree, List.mem_cons, List.mem_flatMap] at inside
    rcases inside with rfl | ⟨c, below, inside⟩
    · exact inner
    · exact ih c below (inner_children other c below) m inside

end Node

/-- In the tree of a definition, of a group of definitions there is at most the definition itself. -/
theorem Definition.countP_preorder {p : Kind → Bool} (outer : ∀ k, k.isInner → p k = false)
    (d : Definition) : d.tree.preorder.countP (p ·.kind) = (p d.node.kind).toNat := by
  have other : d.node.kind ≠ .document := by cases d <;> exact Kind.noConfusion
  have none_below :
      (d.node.children.flatMap fun c => c.tree.preorder).countP (p ·.kind) = 0 := by
    rw [List.countP_eq_zero]
    intro m inside
    obtain ⟨c, below, inside⟩ := List.mem_flatMap.mp inside
    have inner := Node.inner_preorder (Node.inner_children other c below) m inside
    simp [outer m.kind inner]
  rw [← Slot.tree_definition d, Node.preorder_tree, List.countP_cons, none_below]
  cases p d.node.kind <;> rfl

namespace Document

/-- The nodes of a group of definitions in a document are its definitions of that group. -/
theorem countP_preorder {p : Kind → Bool} (outer : ∀ k, k.isInner → p k = false)
    (definitions : p .document = false) (d : Document) :
    d.tree.preorder.countP (p ·.kind) = d.definitions.countP (p ·.node.kind) := by
  have here : d.tree.preorder = .document d :: d.definitions.flatMap (·.tree.preorder) := by
    rw [tree, Tree.preorder, Tree.preorderOf_eq_flatMap, List.flatMap_map]
  have one_by_one : d.definitions.map (fun e => e.tree.preorder.countP (p ·.kind)) =
      d.definitions.map fun e => if p e.node.kind then 1 else 0 :=
    List.map_congr_left fun e _ => by
      rw [Definition.countP_preorder outer e]
      cases p e.node.kind <;> rfl
  rw [here, List.countP_cons_of_neg (by simp [Node.kind, definitions]), List.countP_flatMap,
    Function.comp_def, one_by_one]
  induction d.definitions with
  | nil => rfl
  | cons e es ih => rw [List.map_cons, List.sum_cons, ih, List.countP_cons, Nat.add_comm]

/-- As many nodes are operations and fragments as there are definitions of these sorts. -/
theorem countP_executable (d : Document) :
    d.tree.preorder.countP (·.kind.isExecutable) = d.definitions.countP (·.isExecutable) := by
  rw [countP_preorder (fun k inner => by simp_all [Kind.isInner]) rfl]
  exact List.countP_congr fun e _ => by cases e <;> rfl

/-- As many nodes are other definitions. -/
theorem countP_typeSystem (d : Document) :
    d.tree.preorder.countP (·.kind.isTypeSystem) = d.definitions.countP (!·.isExecutable) := by
  rw [countP_preorder (fun k inner => by simp_all [Kind.isInner]) rfl]
  exact List.countP_congr fun e _ => by cases e <;> rfl

end Document
end GraphQL
