import GraphQL.Proofs.Equality.Sorts

/-! Syntax without origins, and comparison where origins do not count as equality of that. -/
namespace GraphQL

/-- Things from which all origins can be taken. -/
class Detachable (α : Type) where
  /-- The same thing without origins. -/
  detached : α → α

export Detachable (detached)

instance {α : Type} [Detachable α] : Detachable (Option α) := ⟨fun a => a.map detached⟩

instance {α : Type} [Detachable α] : Detachable (List α) := ⟨fun as => as.map detached⟩

instance : Detachable Name := ⟨fun n => { n with origin := none }⟩

instance : Detachable StringValue := ⟨fun s => { s with origin := none }⟩

mutual

def Value.detached : Value → Value
  | .boolean _ b => .boolean none b
  | .enum _ s => .enum none s
  | .float _ x => .float none x
  | .int _ i => .int none i
  | .list _ vs => .list none (Value.detachedAll vs)
  | .null _ => .null none
  | .object _ fs => .object none (ObjectField.detachedAll fs)
  | .string s => .string (Detachable.detached s)
  | .variable _ n => .variable none (Detachable.detached n)

def Value.detachedAll : List Value → List Value
  | [] => []
  | v :: vs => v.detached :: Value.detachedAll vs

def ObjectField.detached : ObjectField → ObjectField
  | ⟨_, n, v⟩ => ⟨none, Detachable.detached n, v.detached⟩

def ObjectField.detachedAll : List ObjectField → List ObjectField
  | [] => []
  | f :: fs => f.detached :: ObjectField.detachedAll fs

end

instance : Detachable Value := ⟨Value.detached⟩
instance : Detachable ObjectField := ⟨ObjectField.detached⟩

instance : Detachable NamedType := ⟨fun t => ⟨none, detached t.name⟩⟩

mutual

def NullableType.detached : NullableType → NullableType
  | .named t => .named (Detachable.detached t)
  | .list _ e => .list none e.detached

def TypeRef.detached : TypeRef → TypeRef
  | .nullable t => .nullable t.detached
  | .nonNull _ t => .nonNull none t.detached

end

instance : Detachable NullableType := ⟨NullableType.detached⟩
instance : Detachable TypeRef := ⟨TypeRef.detached⟩

instance : Detachable Argument := ⟨fun a => ⟨none, detached a.name, detached a.value⟩⟩

instance : Detachable Directive := ⟨fun d => ⟨none, detached d.name, detached d.arguments⟩⟩

instance : Detachable FragmentSpread := ⟨fun s => ⟨none, detached s.name, detached s.directives⟩⟩

mutual

def Selection.detached : Selection → Selection
  | .field f => .field f.detached
  | .spread s => .spread (Detachable.detached s)
  | .inlineFragment f => .inlineFragment f.detached

def Field.detached : Field → Field
  | ⟨_, aliasName, name, arguments, directives, selectionSet⟩ =>
    ⟨none, Detachable.detached aliasName, Detachable.detached name, Detachable.detached arguments,
      Detachable.detached directives, SelectionSet.detachedOptional selectionSet⟩

def InlineFragment.detached : InlineFragment → InlineFragment
  | ⟨_, condition, directives, selectionSet⟩ =>
    ⟨none, Detachable.detached condition, Detachable.detached directives, selectionSet.detached⟩

def SelectionSet.detached : SelectionSet → SelectionSet
  | ⟨_, selections⟩ => ⟨none, Selection.detachedAll selections⟩

def SelectionSet.detachedOptional : Option SelectionSet → Option SelectionSet
  | none => none
  | some s => some s.detached

def Selection.detachedAll : List Selection → List Selection
  | [] => []
  | s :: ss => s.detached :: Selection.detachedAll ss

end

instance : Detachable Selection := ⟨Selection.detached⟩
instance : Detachable Field := ⟨Field.detached⟩
instance : Detachable InlineFragment := ⟨InlineFragment.detached⟩
instance : Detachable SelectionSet := ⟨SelectionSet.detached⟩

instance : Detachable VariableDefinition where
  detached d := ⟨none, detached d.name, detached d.type, detached d.default, detached d.directives⟩

instance : Detachable OperationDefinition where
  detached d := ⟨none, d.kind, detached d.name, detached d.variableDefinitions,
    detached d.directives, detached d.selectionSet⟩

instance : Detachable FragmentDefinition where
  detached d := ⟨none, detached d.name, detached d.typeCondition, detached d.directives,
    detached d.selectionSet⟩

instance : Detachable RootType := ⟨fun t => ⟨none, t.operation, detached t.type⟩⟩

instance : Detachable SchemaDefinition where
  detached d := ⟨none, detached d.description, detached d.directives, detached d.rootTypes⟩

instance : Detachable SchemaExtension where
  detached d := ⟨none, detached d.directives, detached d.rootTypes⟩

instance : Detachable InputDefinition where
  detached d := ⟨none, detached d.description, detached d.name, detached d.type,
    detached d.default, detached d.directives⟩

instance : Detachable FieldDefinition where
  detached d := ⟨none, detached d.description, detached d.name, detached d.arguments,
    detached d.type, detached d.directives⟩

instance : Detachable EnumValueDefinition where
  detached d := ⟨none, detached d.description, detached d.name, detached d.directives⟩

instance : Detachable TypeBody where
  detached
    | .scalar => .scalar
    | .object is fs => .object (detached is) (detached fs)
    | .interface is fs => .interface (detached is) (detached fs)
    | .union ms => .union (detached ms)
    | .enum vs => .enum (detached vs)
    | .inputObject fs => .inputObject (detached fs)

instance : Detachable TypeDefinition where
  detached d := ⟨none, detached d.description, detached d.name, detached d.directives,
    detached d.body⟩

instance : Detachable TypeExtension where
  detached d := ⟨none, detached d.name, detached d.directives, detached d.body⟩

instance : Detachable DirectiveDefinition where
  detached d := ⟨none, detached d.description, detached d.name, detached d.arguments,
    d.isRepeatable, detached d.locations⟩

instance : Detachable Definition where
  detached
    | .operation d => .operation (detached d)
    | .fragment d => .fragment (detached d)
    | .schema d => .schema (detached d)
    | .schemaExtension d => .schemaExtension (detached d)
    | .type d => .type (detached d)
    | .typeExtension d => .typeExtension (detached d)
    | .directive d => .directive (detached d)

instance : Detachable Document := ⟨fun d => ⟨none, detached d.definitions⟩⟩

/-- The same syntax in a slot without origins. -/
def Slot.detached : (r : Slot) → (a : r.Syntax) → r.Syntax
  | document, a | definition, a | operation, a | fragment, a | variableDefinition, a
  | selectionSet, a | selection, a | field, a | spread, a | inlineFragment, a | argument, a
  | directive, a | value, a | valueOf _, a | string, a | objectField, a | type, a
  | markedType, a | namedType, a | listType, a | nonNullType, a | schema, a
  | schemaExtension, a | rootType, a | typeDefinition, a | typeDefinitionOf _, a
  | typeExtension, a | typeExtensionOf _, a | enumValueDefinition, a | directiveDefinition, a
  | fieldDefinition, a | inputDefinition, a | name, a => Detachable.detached a

/-- The same row without origins. -/
def Row.detached (row : Row) : Row := ⟨row.slot, row.items.map row.slot.detached⟩

theorem Rows.matches_detached {R : Slot.Relation} {rows rows' : Rows} :
    Rows.Matches R (rows.map Row.detached) (rows'.map Row.detached) ↔
      Rows.Matches (fun r a b => R r (r.detached a) (r.detached b)) rows rows' := by
  rw [Rows.Matches, List.forall₂_map_left_iff, List.forall₂_map_right_iff]
  have row : ∀ row row' : Row, Row.Matches R row.detached row'.detached ↔
      Row.Matches (fun r a b => R r (r.detached a) (r.detached b)) row row' := by
    rintro ⟨r, as⟩ ⟨r', bs⟩
    constructor
    · intro h
      obtain rfl : r = r' := h.slot
      have items := Row.matches_many.mp h
      rw [List.forall₂_map_left_iff, List.forall₂_map_right_iff] at items
      exact .row items
    · rintro ⟨items⟩
      refine .row ?_
      rwa [List.forall₂_map_left_iff, List.forall₂_map_right_iff]
  exact ⟨fun h => h.imp fun _ _ => (row _ _).mp, fun h => h.imp fun _ _ => (row _ _).mpr⟩

theorem Value.detachedAll_eq (vs : List Value) :
    Value.detachedAll vs = vs.map Detachable.detached := by
  induction vs with
  | nil => rfl
  | cons v vs ih => rw [Value.detachedAll, ih, List.map_cons]; rfl

theorem ObjectField.detachedAll_eq (fs : List ObjectField) :
    ObjectField.detachedAll fs = fs.map Detachable.detached := by
  induction fs with
  | nil => rfl
  | cons f fs ih => rw [ObjectField.detachedAll, ih, List.map_cons]; rfl

theorem Selection.detachedAll_eq (ss : List Selection) :
    Selection.detachedAll ss = ss.map Detachable.detached := by
  induction ss with
  | nil => rfl
  | cons s ss ih => rw [Selection.detachedAll, ih, List.map_cons]; rfl

theorem TypeBody.form_detached (body : TypeBody) : (Detachable.detached body).form = body.form := by
  cases body <;> rfl

namespace Slot

theorem admits_detached {r : Slot} {a : r.Syntax} (admits : r.Admits a) :
    r.Admits (r.detached a) := by
  cases r
  case valueOf => cases a <;> exact admits
  case listType =>
    obtain ⟨o, e, rfl⟩ := admits
    exact ⟨none, e.detached, rfl⟩
  case nonNullType => cases a <;> exact admits
  case typeDefinitionOf | typeExtensionOf => exact (TypeBody.form_detached _).trans admits
  all_goals exact trivial

theorem origin_detached (r : Slot) (a : r.Syntax) : r.origin (r.detached a) = none := by
  cases r
  case valueOf | listType => cases a <;> rfl
  case nonNullType => rcases a with ⟨_ | _⟩ | _ <;> rfl
  case objectField | selectionSet | field | inlineFragment => cases a; rfl
  all_goals rfl

theorem datum_detached (r : Slot) (a : r.Syntax) : r.datum (r.detached a) = r.datum a := by
  cases r
  case valueOf => cases a <;> rfl
  all_goals rfl

theorem bodyRows_detached (ds : List Directive) (body : TypeBody) :
    bodyRows (Detachable.detached ds) (Detachable.detached body) =
      (bodyRows ds body).map Row.detached := by
  cases body <;> rfl

theorem rows_detached (r : Slot) (a : r.Syntax) :
    r.rows (r.detached a) = (r.rows a).map Row.detached := by
  cases r
  case definition | selection | value | markedType | listType => cases a <;> rfl
  case type | nonNullType => rcases a with ⟨_ | _⟩ | _ <;> rfl
  case valueOf =>
    cases a with
    | list o vs => exact congrArg (fun vs => [Row.many value vs]) (Value.detachedAll_eq vs)
    | object o fs =>
      exact congrArg (fun fs => [Row.many objectField fs]) (ObjectField.detachedAll_eq fs)
    | _ => rfl
  case selectionSet =>
    obtain ⟨o, ss⟩ := a
    exact congrArg (fun ss => [Row.many selection ss]) (Selection.detachedAll_eq ss)
  case field => obtain ⟨o, _ | n, n', as, ds, _ | s⟩ := a <;> rfl
  case inlineFragment => obtain ⟨o, _ | n, ds, s⟩ := a <;> rfl
  case objectField => cases a; rfl
  case typeDefinition => exact rows_typeDefinition (TypeBody.form_detached _)
  case typeExtension => exact rows_typeExtension (TypeBody.form_detached _)
  case typeDefinitionOf =>
    obtain ⟨o, _ | s, n, ds, body⟩ := a
    all_goals exact congrArg (_ :: _ :: ·) (bodyRows_detached ds body)
  case typeExtensionOf =>
    obtain ⟨o, n, ds, body⟩ := a
    exact congrArg (_ :: ·) (bodyRows_detached ds body)
  case operation => obtain ⟨o, k, _ | n, vs, ds, s⟩ := a <;> rfl
  case variableDefinition => obtain ⟨o, n, t, _ | v, ds⟩ := a <;> rfl
  case schema => obtain ⟨o, _ | s, ds, ts⟩ := a <;> rfl
  case enumValueDefinition => obtain ⟨o, _ | s, n, ds⟩ := a <;> rfl
  case directiveDefinition => obtain ⟨o, _ | s, n, as, k, ls⟩ := a <;> rfl
  case fieldDefinition => obtain ⟨o, _ | s, n, as, t, ds⟩ := a <;> rfl
  case inputDefinition => obtain ⟨o, _ | s, n, t, _ | v, ds⟩ := a <;> rfl
  all_goals rfl

/-- Equality without origins goes by the parts, whatever the origins are. -/
theorem beq_detached_byParts :
    Relation.ByParts (fun r a b => r.beq (r.detached a) (r.detached b) = true) fun _ _ => True := by
  intro r a b ha hb
  refine (beq_byParts r _ _ (admits_detached ha) (admits_detached hb)).trans ?_
  rw [origin_detached, origin_detached, datum_detached, datum_detached, rows_detached,
    rows_detached]
  simp only [Rows.matches_detached, beq_self_eq_true]

theorem origin?_node {r : Slot} (sort : r.isGroup = false) (a : r.Syntax) :
    (r.node a).origin? = r.origin a := by
  cases r
  case definition | selection | value | type | markedType | typeDefinition | typeExtension =>
    simp [isGroup] at sort
  all_goals rfl

/-- No node has an origin in syntax without origins. -/
theorem origin?_detached (r : Slot) (a : r.Syntax) (admits : r.Admits a) :
    ∀ n ∈ (r.node (r.detached a)).tree.preorder, n.origin? = none := by
  refine Slot.induction (P := fun r a => ∀ n ∈ (r.node (r.detached a)).tree.preorder,
    n.origin? = none) (fun r a admits below n hn => ?_) r a admits
  have nodes : ∀ m ∈ r.nodes (r.detached a), ∀ n ∈ m.tree.preorder, n.origin? = none := by
    intro m hm n hn
    rw [Slot.nodes, rows_detached, List.flatMap_map] at hm
    obtain ⟨row, hrow, hm⟩ := List.mem_flatMap.mp hm
    rw [Row.nodes, Row.detached, List.map_map] at hm
    obtain ⟨b, hb, rfl⟩ := List.mem_map.mp hm
    exact below row hrow b hb n hn
  cases group : r.isGroup with
  | true => exact nodes _ (by simp [nodes_of_group group]) n hn
  | false =>
    rw [tree_node group _ (admits_detached admits), Tree.preorder, Tree.preorderOf_eq_flatMap,
      List.flatMap_map] at hn
    rcases List.mem_cons.mp hn with rfl | hn
    · rw [origin?_node group, origin_detached]
    · obtain ⟨m, hm, hn⟩ := List.mem_flatMap.mp hn
      exact nodes m hm n hn

end Slot
end GraphQL
