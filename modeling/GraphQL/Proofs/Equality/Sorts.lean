import GraphQL.Proofs.Complete.Repetition
import GraphQL.Proofs.Equality.Parts

/-! Comparison and equality of syntax of each sort go by its parts. -/
namespace GraphQL

namespace Slot

/-- Comparison of syntax in a slot. -/
def same (origins : Bool) : (r : Slot) → (a b : r.Syntax) → Bool
  | document, a, b | definition, a, b | operation, a, b | fragment, a, b
  | variableDefinition, a, b | selectionSet, a, b | selection, a, b | field, a, b | spread, a, b
  | inlineFragment, a, b | argument, a, b | directive, a, b | value, a, b | valueOf _, a, b
  | string, a, b | objectField, a, b | type, a, b | markedType, a, b | namedType, a, b
  | listType, a, b | nonNullType, a, b | schema, a, b | schemaExtension, a, b | rootType, a, b
  | typeDefinition, a, b | typeDefinitionOf _, a, b | typeExtension, a, b
  | typeExtensionOf _, a, b | enumValueDefinition, a, b | directiveDefinition, a, b
  | fieldDefinition, a, b | inputDefinition, a, b | name, a, b => Comparable.same origins a b

/-- Equality of syntax in a slot. -/
def beq : (r : Slot) → (a b : r.Syntax) → Bool
  | document, a, b | definition, a, b | operation, a, b | fragment, a, b
  | variableDefinition, a, b | selectionSet, a, b | selection, a, b | field, a, b | spread, a, b
  | inlineFragment, a, b | argument, a, b | directive, a, b | value, a, b | valueOf _, a, b
  | string, a, b | objectField, a, b | type, a, b | markedType, a, b | namedType, a, b
  | listType, a, b | nonNullType, a, b | schema, a, b | schemaExtension, a, b | rootType, a, b
  | typeDefinition, a, b | typeDefinitionOf _, a, b | typeExtension, a, b
  | typeExtensionOf _, a, b | enumValueDefinition, a, b | directiveDefinition, a, b
  | fieldDefinition, a, b | inputDefinition, a, b | name, a, b => a == b

end Slot

/-! ### Comparison -/

/-- The row below a value tells its kind. -/
theorem Slot.kind_eq_of_rows {a b : Value}
    (h : (Slot.rows .value a).map (·.slot) = (Slot.rows .value b).map (·.slot)) :
    a.kind = b.kind := by
  cases a <;> cases b <;> first | rfl | cases h

section Same

variable {α : Type} [Comparable α] {origins : Bool}

theorem same_list_iff {as bs : List α} : same origins as bs = true ↔
    List.Forall₂ (fun a b => same origins a b = true) as bs := by
  induction as generalizing bs with
  | nil => cases bs <;> simp [same]
  | cons a as ih =>
    cases bs with
    | nil => simp [same]
    | cons b bs => simp [← ih]

theorem same_option_iff {a b : Option α} : same origins a b = true ↔
    Option.Rel (fun a b => same origins a b = true) a b := by
  cases a <;> cases b <;> simp [same]

theorem Value.same_eq (a b : Value) : Value.same origins a b = Comparable.same origins a b := rfl

theorem NullableType.same_eq (a b : NullableType) :
    NullableType.same origins a b = Comparable.same origins a b := rfl

theorem TypeRef.same_eq (a b : TypeRef) :
    TypeRef.same origins a b = Comparable.same origins a b := rfl

theorem SelectionSet.same_eq (a b : SelectionSet) :
    SelectionSet.same origins a b = Comparable.same origins a b := rfl

namespace TypeBody

variable {x y : TypeBody}

theorem form_eq_of_same (h : Comparable.same origins x y = true) : x.form = y.form := by
  cases x <;> cases y <;> first | rfl | cases h

/-- Directives and bodies of types of one form, as rows. -/
theorem same_iff {ds es : List Directive} (form : x.form = y.form) :
    Comparable.same origins ds es = true ∧ Comparable.same origins x y = true ↔
      Rows.Matches (fun r a b => r.same origins a b = true) (Slot.bodyRows ds x)
        (Slot.bodyRows es y) := by
  cases x <;> cases y <;> cases form
  case' scalar => change _ ∧ true = true ↔ _
  case' object | interface => change _ ∧ (_ && _) = true ↔ _
  case' union as bs | enum as bs | inputObject as bs =>
    change _ ∧ Comparable.same origins as bs = true ↔ _
  all_goals simp [Slot.bodyRows, same_list_iff, Slot.same]
  all_goals tauto

end TypeBody

theorem TypeDefinition.form_eq_of_same {a b : TypeDefinition}
    (h : Comparable.same origins a b = true) : a.body.form = b.body.form := by
  change (_ && _ && _ && _ && _) = true at h
  rw [Bool.and_eq_true] at h
  exact TypeBody.form_eq_of_same h.2

theorem TypeExtension.form_eq_of_same {a b : TypeExtension}
    (h : Comparable.same origins a b = true) : a.body.form = b.body.form := by
  change (_ && _ && _ && _) = true at h
  rw [Bool.and_eq_true] at h
  exact TypeBody.form_eq_of_same h.2

theorem Value.kind_eq_of_same {a b : Value} (h : Comparable.same origins a b = true) :
    a.kind = b.kind := by
  change Value.same origins a b = true at h
  unfold Value.same at h
  split at h
  case h_10 => cases h
  all_goals rfl

/-- Comparison in a group: of the same sort, and the same there. -/
theorem Slot.same_of_group (origins : Bool) (r : Slot) (group : r.isGroup) (a b : r.Syntax) :
    r.same origins a b = true ↔
      Rows.Matches (fun r a b => r.same origins a b = true) (r.rows a) (r.rows b) := by
  cases r <;> cases group
  case value =>
    by_cases kind : a.kind = b.kind
    · cases a <;> cases b <;> cases kind
      all_goals first
        | exact Iff.symm Rows.matches_one
        | simp [Slot.rows, Slot.same, Comparable.same, Value.same]
    · refine iff_of_false (fun h => kind (Value.kind_eq_of_same h)) fun h => kind ?_
      exact Slot.kind_eq_of_rows h.slots
  case typeDefinition =>
    exact Slot.Relation.iff_of_typeDefinition (R := fun r a b => r.same origins a b = true)
      TypeDefinition.form_eq_of_same fun _ => Iff.rfl
  case typeExtension =>
    exact Slot.Relation.iff_of_typeExtension (R := fun r a b => r.same origins a b = true)
      TypeExtension.form_eq_of_same fun _ => Iff.rfl
  case' selection =>
    change Selection.same origins a b = true ↔ _
    unfold Selection.same
  case' type => rcases a with ⟨_ | _⟩ | _ <;> rcases b with ⟨_ | _⟩ | _
  case' definition | selection | markedType => cases a <;> cases b
  all_goals first
    | exact Iff.symm Rows.matches_one
    | exact iff_of_false (by rintro ⟨⟩) (Rows.not_matches_one (by rintro ⟨⟩))

/-- Comparison of syntax of one sort. All fields are compared, one after another. -/
theorem Slot.same_of_sort (origins : Bool) (r : Slot) (sort : r.isGroup = false) (a b : r.Syntax)
    (ha : r.Admits a) (hb : r.Admits b) : r.same origins a b = true ↔
      sameOrigin origins (r.origin a) (r.origin b) = true ∧ (r.datum a == r.datum b) = true ∧
        Rows.Matches (fun r a b => r.same origins a b = true) (r.rows a) (r.rows b) := by
  cases r
  case definition | selection | value | type | markedType | typeDefinition | typeExtension =>
    simp [Slot.isGroup] at sort
  case valueOf =>
    change Value.same origins a b = true ↔ _
    cases a <;> cases ha <;> cases b <;> cases hb
    all_goals
      simp [Slot.rows, Slot.origin, Slot.datum, Slot.same, Value.origin?, Value.same,
        Value.sameAll_eq_same, ObjectField.sameAll_eq_same, same_list_iff]
    next s s' => simp [Comparable.same, and_assoc]
  case listType =>
    obtain ⟨o, e, rfl⟩ := ha
    obtain ⟨o', e', rfl⟩ := hb
    change NullableType.same origins _ _ = true ↔ _
    simp [Slot.rows, Slot.origin, Slot.datum, Slot.same, NullableType.origin?, NullableType.same,
      TypeRef.same_eq]
  case nonNullType =>
    cases a <;> cases ha
    cases b <;> cases hb
    change TypeRef.same origins _ _ = true ↔ _
    simp [Slot.rows, Slot.origin, Slot.datum, Slot.same, TypeRef.origin?, TypeRef.same,
      NullableType.same_eq]
  case typeDefinitionOf =>
    cases a; cases b
    cases ha
    change (_ && _ && _ && _ && _) = true ↔ _
    simp [Slot.rows, Slot.origin, Slot.datum, Slot.same, same_option_iff, and_assoc,
      TypeBody.same_iff hb.symm]
  case typeExtensionOf =>
    cases a; cases b
    cases ha
    change (_ && _ && _ && _) = true ↔ _
    simp [Slot.rows, Slot.origin, Slot.datum, Slot.same, and_assoc, TypeBody.same_iff hb.symm]
  case' objectField =>
    cases a; cases b
    change ObjectField.same origins _ _ = true ↔ _
    rw [ObjectField.same]
  case' selectionSet =>
    cases a; cases b
    change SelectionSet.same origins _ _ = true ↔ _
    rw [SelectionSet.same]
  case' field =>
    cases a; cases b
    change Field.same origins _ _ = true ↔ _
    rw [Field.same]
  case' inlineFragment =>
    cases a; cases b
    change InlineFragment.same origins _ _ = true ↔ _
    rw [InlineFragment.same]
  -- as many tests as there are fields, that of the origin first
  case' name | document | namedType => change (_ && _) = true ↔ _
  case' directive | argument | spread | schemaExtension | rootType | string =>
    change (_ && _ && _) = true ↔ _
  case' schema | enumValueDefinition => change (_ && _ && _ && _) = true ↔ _
  case' fragment | variableDefinition => change (_ && _ && _ && _ && _) = true ↔ _
  case' operation | inputDefinition | fieldDefinition | directiveDefinition =>
    change (_ && _ && _ && _ && _ && _) = true ↔ _
  all_goals
    simp [Slot.rows, Slot.origin, Slot.datum, Slot.same, same_list_iff, same_option_iff, and_assoc,
      SelectionSet.sameOptional_eq_same, Selection.sameAll_eq_same, Value.same_eq,
      SelectionSet.same_eq]
  all_goals tauto

/-- Comparison goes by the parts. -/
theorem Slot.same_byParts (origins : Bool) :
    Slot.Relation.ByParts (fun r a b => r.same origins a b = true)
      fun o o' => sameOrigin origins o o' = true :=
  Slot.Relation.byParts_of (by cases origins <;> rfl) (Slot.same_of_group origins)
    (Slot.same_of_sort origins)

end Same

/-! ### Equality -/

section Equal

theorem beq_list_iff {α : Type} [BEq α] {as bs : List α} : (as == bs) = true ↔
    List.Forall₂ (fun a b => (a == b) = true) as bs := by
  induction as generalizing bs with
  | nil => cases bs <;> simp
  | cons a as ih => cases bs <;> simp [← ih]

theorem beq_option_iff {α : Type} [BEq α] {a b : Option α} : (a == b) = true ↔
    Option.Rel (fun a b => (a == b) = true) a b := by
  cases a <;> cases b <;> simp

theorem Value.beq_eq (a b : Value) : Value.beq a b = (a == b) := rfl

theorem NullableType.beq_eq (a b : NullableType) : NullableType.beq a b = (a == b) := rfl

theorem TypeRef.beq_eq (a b : TypeRef) : TypeRef.beq a b = (a == b) := rfl

theorem SelectionSet.beq_eq (a b : SelectionSet) : SelectionSet.beq a b = (a == b) := rfl

theorem Value.beqAll_eq (as bs : List Value) : Value.beqAll as bs = (as == bs) := by
  induction as generalizing bs with
  | nil => cases bs <;> simp [Value.beqAll]
  | cons a as ih => cases bs <;> simp [Value.beqAll, ih, Value.beq_eq]

theorem ObjectField.beqAll_eq (as bs : List ObjectField) :
    ObjectField.beqAll as bs = (as == bs) := by
  induction as generalizing bs with
  | nil => cases bs <;> simp [ObjectField.beqAll]
  | cons a as ih =>
    cases bs with
    | nil => simp [ObjectField.beqAll]
    | cons b bs =>
      rw [ObjectField.beqAll, ih, List.cons_beq_cons]
      rfl

theorem Selection.beqAll_eq (as bs : List Selection) : Selection.beqAll as bs = (as == bs) := by
  induction as generalizing bs with
  | nil => cases bs <;> simp [Selection.beqAll]
  | cons a as ih =>
    cases bs with
    | nil => simp [Selection.beqAll]
    | cons b bs =>
      rw [Selection.beqAll, ih, List.cons_beq_cons]
      rfl

theorem SelectionSet.beqOptional_eq (a b : Option SelectionSet) :
    SelectionSet.beqOptional a b = (a == b) := by
  cases a <;> cases b <;> simp [SelectionSet.beqOptional, SelectionSet.beq_eq]

namespace TypeBody

variable {x y : TypeBody}

theorem form_eq_of_beq (h : (x == y) = true) : x.form = y.form := by
  cases x <;> cases y <;> first | rfl | cases h

theorem beq_iff {ds es : List Directive} (form : x.form = y.form) :
    (ds == es) = true ∧ (x == y) = true ↔
      Rows.Matches (fun r a b => r.beq a b = true) (Slot.bodyRows ds x) (Slot.bodyRows es y) := by
  cases x <;> cases y <;> cases form
  case' scalar => change _ ∧ true = true ↔ _
  case' object | interface => change _ ∧ (_ && _) = true ↔ _
  case' union as bs | enum as bs | inputObject as bs => change _ ∧ (as == bs) = true ↔ _
  all_goals
    simp only [Slot.bodyRows, Slot.beq, beq_list_iff, Bool.and_eq_true, List.forall₂_cons,
      List.forall₂_nil_left_iff, Row.matches_many, and_true]
  all_goals tauto

end TypeBody

theorem TypeDefinition.form_eq_of_beq {a b : TypeDefinition} (h : (a == b) = true) :
    a.body.form = b.body.form := by
  change (_ && (_ && (_ && (_ && _)))) = true at h
  simp only [Bool.and_eq_true] at h
  exact TypeBody.form_eq_of_beq h.2.2.2.2

theorem TypeExtension.form_eq_of_beq {a b : TypeExtension} (h : (a == b) = true) :
    a.body.form = b.body.form := by
  change (_ && (_ && (_ && _))) = true at h
  simp only [Bool.and_eq_true] at h
  exact TypeBody.form_eq_of_beq h.2.2.2

theorem Value.kind_eq_of_beq {a b : Value} (h : (a == b) = true) : a.kind = b.kind := by
  change Value.beq a b = true at h
  unfold Value.beq at h
  split at h
  case h_10 => cases h
  all_goals rfl

/-- Equality in a group: of the same sort, and equal there. -/
theorem Slot.beq_of_group (r : Slot) (group : r.isGroup) (a b : r.Syntax) : r.beq a b = true ↔
    Rows.Matches (fun r a b => r.beq a b = true) (r.rows a) (r.rows b) := by
  cases r <;> cases group
  case value =>
    by_cases kind : a.kind = b.kind
    · cases a <;> cases b <;> cases kind
      all_goals first
        | exact Iff.symm Rows.matches_one
        | simp [Slot.rows, Slot.beq, ← Value.beq_eq, Value.beq]
    · refine iff_of_false (fun h => kind (Value.kind_eq_of_beq h)) fun h => kind ?_
      exact Slot.kind_eq_of_rows h.slots
  case typeDefinition =>
    exact Slot.Relation.iff_of_typeDefinition (R := fun r a b => r.beq a b = true)
      TypeDefinition.form_eq_of_beq fun _ => Iff.rfl
  case typeExtension =>
    exact Slot.Relation.iff_of_typeExtension (R := fun r a b => r.beq a b = true)
      TypeExtension.form_eq_of_beq fun _ => Iff.rfl
  case' selection =>
    change Selection.beq a b = true ↔ _
    unfold Selection.beq
  case' type => rcases a with ⟨_ | _⟩ | _ <;> rcases b with ⟨_ | _⟩ | _
  case' definition | selection | markedType => cases a <;> cases b
  all_goals first
    | exact Iff.symm Rows.matches_one
    | exact iff_of_false (by rintro ⟨⟩) (Rows.not_matches_one (by rintro ⟨⟩))

/-- Equality of syntax of one sort. All fields are compared, one after another. -/
theorem Slot.beq_of_sort (r : Slot) (sort : r.isGroup = false) (a b : r.Syntax) (ha : r.Admits a)
    (hb : r.Admits b) : r.beq a b = true ↔
      (r.origin a == r.origin b) = true ∧ (r.datum a == r.datum b) = true ∧
        Rows.Matches (fun r a b => r.beq a b = true) (r.rows a) (r.rows b) := by
  cases r
  case definition | selection | value | type | markedType | typeDefinition | typeExtension =>
    simp [Slot.isGroup] at sort
  case name | namedType | string =>
    cases a; cases b
    simp [Slot.rows, Slot.origin, Slot.datum, Slot.beq]
  case valueOf =>
    change Value.beq a b = true ↔ _
    cases a <;> cases ha <;> cases b <;> cases hb
    all_goals
      simp [Slot.rows, Slot.origin, Slot.datum, Slot.beq, Value.origin?, Value.beq,
        Value.beqAll_eq, ObjectField.beqAll_eq, beq_list_iff]
    next s s' =>
      cases s; cases s'
      simp
  case listType =>
    obtain ⟨o, e, rfl⟩ := ha
    obtain ⟨o', e', rfl⟩ := hb
    change NullableType.beq _ _ = true ↔ _
    simp [Slot.rows, Slot.origin, Slot.datum, Slot.beq, NullableType.origin?, NullableType.beq,
      TypeRef.beq_eq]
  case nonNullType =>
    cases a <;> cases ha
    cases b <;> cases hb
    change TypeRef.beq _ _ = true ↔ _
    simp [Slot.rows, Slot.origin, Slot.datum, Slot.beq, TypeRef.origin?, TypeRef.beq,
      NullableType.beq_eq]
  case typeDefinitionOf =>
    cases a; cases b
    cases ha
    change (_ && (_ && (_ && (_ && _)))) = true ↔ _
    simp only [Slot.rows, Slot.origin, Slot.datum, Slot.beq, beq_option_iff,
      TypeBody.beq_iff hb.symm, Bool.and_eq_true, List.forall₂_cons, Row.matches_optional,
      Row.matches_single, Datum.none_beq, true_and]
  case typeExtensionOf =>
    cases a; cases b
    cases ha
    change (_ && (_ && (_ && _))) = true ↔ _
    simp only [Slot.rows, Slot.origin, Slot.datum, Slot.beq, TypeBody.beq_iff hb.symm,
      Bool.and_eq_true, List.forall₂_cons, Row.matches_single, Datum.none_beq, true_and]
  case' objectField =>
    cases a; cases b
    change ObjectField.beq _ _ = true ↔ _
    rw [ObjectField.beq]
  case' selectionSet =>
    cases a; cases b
    change SelectionSet.beq _ _ = true ↔ _
    rw [SelectionSet.beq]
  case' field =>
    cases a; cases b
    change Field.beq _ _ = true ↔ _
    rw [Field.beq]
  case' inlineFragment =>
    cases a; cases b
    change InlineFragment.beq _ _ = true ↔ _
    rw [InlineFragment.beq]
  -- as many tests as there are fields, that of the origin first
  case' document => change (_ && _) = true ↔ _
  case' directive | argument | spread | schemaExtension | rootType =>
    change (_ && (_ && _)) = true ↔ _
  case' schema | enumValueDefinition => change (_ && (_ && (_ && _))) = true ↔ _
  case' fragment | variableDefinition => change (_ && (_ && (_ && (_ && _)))) = true ↔ _
  case' operation | inputDefinition | fieldDefinition | directiveDefinition =>
    change (_ && (_ && (_ && (_ && (_ && _))))) = true ↔ _
  all_goals
    simp only [Slot.rows, Slot.origin, Slot.datum, Slot.beq, beq_list_iff, beq_option_iff,
      Bool.and_eq_true, List.forall₂_cons, List.forall₂_nil_left_iff, Row.matches_many,
      Row.matches_optional, Row.matches_single, Datum.none_beq, Datum.flag_beq,
      Datum.operation_beq, Selection.beqAll_eq, SelectionSet.beqOptional_eq, SelectionSet.beq_eq,
      Value.beq_eq, true_and, and_true]
  all_goals tauto

/-- Equality goes by the parts. -/
theorem Slot.beq_byParts :
    Slot.Relation.ByParts (fun r a b => r.beq a b = true) fun o o' => (o == o') = true :=
  Slot.Relation.byParts_of rfl Slot.beq_of_group Slot.beq_of_sort

end Equal
end GraphQL
