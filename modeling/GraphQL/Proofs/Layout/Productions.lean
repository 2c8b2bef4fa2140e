import GraphQL.Parser.TypeSystem
import GraphQL.Proofs.Layout.Runs
import GraphQL.Proofs.Text.Float

/-! No production of the grammar looks at where tokens stand: on tokens of the same kinds each reads
the same thing, or fails with the same error. -/
namespace GraphQL.Parser

theorem same_name_iff {n n' : Name} : same false n n' = true ↔ n.value = n'.value := by simp [same]

theorem name_same : SameRuns name name := by
  apply Agree.peek.bind
  intro t u same_kind
  simp only [same_kind]
  split
  · exact .consumed <| (Agree.originOf t u).bind fun _ _ _ => .pure (by simp [same])
  · exact .unexpected _

theorem unreservedName_same (role : ReservingRole) :
    SameRuns (unreservedName role) (unreservedName role) := by
  apply Agree.peek.bind
  intro t u _
  apply name_same.bind
  intro n n' same_n
  rw [same_name_iff.mp same_n]
  split
  · exact .failAt
  · exact .pure same_n

theorem variableName_same : SameRuns variableName variableName := .marked name_same

theorem optionalString_same : SameRuns optionalString optionalString := by
  apply Agree.peek.bind
  intro t u same_kind
  simp only [same_kind]
  split
  · exact .pure rfl
  · apply Agree.consumed
    apply (Agree.originOf t u).bind
    intro o o' _
    split
    · exact .pure (by simp [same])
    · exact .fail o o'

theorem wordValue_same (o o' : Option Origin) (word : String) :
    same false (wordValue o word) (wordValue o' word) = true := by
  unfold wordValue
  repeat' split
  all_goals simp [same, Value.same]

theorem leafValue_same (position : Option ConstPosition) :
    SameRuns (leafValue position) (leafValue position) := by
  apply Agree.peek.bind
  intro t u same_kind
  simp only [same_kind]
  split
  · apply variableName_same.bind
    intro n n' same_n
    apply (Agree.spanFrom t.start u.start).bind
    intro o o' _
    split
    · exact .pure (by simpa [same, Value.same] using same_n)
    · rw [same_name_iff.mp same_n]
      exact .fail o o'
  · apply Agree.consumed
    apply (Agree.spanFrom t.start u.start).bind
    intro o o' _
    split
    · exact .pure (by simp [same, Value.same])
    · exact .fail o o'
  · apply Agree.consumed
    apply (Agree.spanFrom t.start u.start).bind
    intro o o' _
    split
    · next known => exact .pure (by simp [same, Value.same, Text.Decimal.beq_of_toFloat? known])
    · exact .fail o o'
  · apply optionalString_same.bind
    rintro (_ | s) (_ | s') same_s
    · exact .unexpected _
    · cases same_s
    · cases same_s
    · exact .pure (by simpa [same, Value.same] using same_s)
  · apply optionalString_same.bind
    rintro (_ | s) (_ | s') same_s
    · exact .unexpected _
    · cases same_s
    · cases same_s
    · exact .pure (by simpa [same, Value.same] using same_s)
  · exact .consumed <| .spanned fun _ _ => wordValue_same _ _ _
  · exact .unexpected _

section Values

variable {p q : Parser Value} (values : SameRuns p q)
include values

theorem objectField_same : SameRuns (objectField p) (objectField q) :=
  .started fun _ _ => name_same.bind fun _ _ same_n => .marked <| values.bind fun _ _ same_v =>
    .spanned fun _ _ => by simpa [same, ObjectField.same] using And.intro same_n same_v

theorem valueWith_same (position : Option ConstPosition) :
    SameRuns (valueWith position p) (valueWith position q) := by
  apply Agree.peek.bind
  intro t u same_kind
  simp only [same_kind]
  split
  · exact (values.any _ _).bind fun _ _ same_vs => .spanned fun _ _ => by
      simpa [same, Value.same, Value.sameAll_eq_same] using same_vs
  · exact ((objectField_same values).any _ _).bind fun _ _ same_fs => .spanned fun _ _ => by
      simpa [same, Value.same, ObjectField.sameAll_eq_same] using same_fs
  · exact leafValue_same position

end Values

theorem value_same (position : Option ConstPosition) (levels : Nat) :
    SameRuns (value position levels) (value position levels) := by
  induction levels with
  | zero => exact .tooDeep
  | succ levels ih => exact valueWith_same ih position

theorem namedType_same : SameRuns namedType namedType := name_same.bind fun _ _ same_n => .pure same_n

theorem typeRefWith_same {p q : Parser TypeRef} (elements : SameRuns p q) :
    SameRuns (typeRefWith p) (typeRefWith q) := by
  apply Agree.started
  intro start start'
  have finish {bare bare' : NullableType} (same_bare : same false bare bare' = true) :
      SameRuns
        (do
          if ← accept .bang then return .nonNull (some (← spanFrom start)) bare
          else return .nullable bare : Parser TypeRef)
        (do
          if ← accept .bang then return .nonNull (some (← spanFrom start')) bare'
          else return .nullable bare') :=
    (Agree.accept .bang).bind fun _ _ same_mark => .ite (by rw [same_mark])
      (fun _ => .spanned fun _ _ => by simpa [same, TypeRef.same] using same_bare)
      fun _ => .pure (by simpa [same, TypeRef.same] using same_bare)
  apply (Agree.accept .openBracket).bind
  intro b b' same_mark
  apply Agree.ite (by rw [same_mark])
  · intro _
    apply elements.bind
    intro e e' same_e
    apply Agree.marked
    apply (Agree.spanFrom start start').bind
    intro o o' _
    exact finish (by simpa [same, NullableType.same] using same_e)
  · intro _
    rw [bind_map_left, bind_map_left]
    exact namedType_same.bind fun t t' same_t =>
      finish (by simpa [same, NullableType.same] using same_t)

theorem typeRef_same (levels : Nat) : SameRuns (typeRef levels) (typeRef levels) := by
  induction levels with
  | zero => exact typeRefWith_same .tooDeep
  | succ levels ih => exact typeRefWith_same ih

section Selections

variable {p : Parser Value} {ss : Parser SelectionSet} (values : SameRuns p p)
  (sets : SameRuns ss ss)
include values

theorem argument_same : SameRuns (argument p) (argument p) :=
  .started fun _ _ => name_same.bind fun _ _ same_n => .marked <| values.bind fun _ _ same_v =>
    .spanned fun _ _ => by simpa [same] using And.intro same_n same_v

theorem arguments_same : SameRuns (arguments p) (arguments p) :=
  (argument_same values).optionalMany _ _

theorem directive_same : SameRuns (directive p) (directive p) :=
  .started fun _ _ => .marked <| name_same.bind fun _ _ same_n =>
    (arguments_same values).bind fun _ _ same_as =>
      .spanned fun _ _ => by simpa [same] using And.intro same_n same_as

theorem directives_same : SameRuns (directives p) (directives p) :=
  (directive_same values).whileAt _

include sets

/-- A field from its arguments on. -/
theorem fieldRest_same (start start' : Position) (a a' : Option Name) {n n' : Name}
    (same_a : same false a a' = true) (same_n : same false n n' = true) :
    SameRuns
      (do
        let as ← arguments p
        let ds ← directives p
        let inner ← if ← atMark .openBrace then some <$> ss else pure none
        return ⟨some (← spanFrom start), a, n, as, ds, inner⟩ : Parser Field)
      (do
        let as ← arguments p
        let ds ← directives p
        let inner ← if ← atMark .openBrace then some <$> ss else pure none
        return ⟨some (← spanFrom start'), a', n', as, ds, inner⟩) := by
  refine (arguments_same values).bind fun as as' same_as => (directives_same values).bind
    fun ds ds' same_ds => (Agree.atMark .openBrace).bind fun b b' same_mark =>
      .ite_bind (by rw [same_mark]) sets.mapSome (.pure rfl) fun inner inner' same_set =>
        .spanned fun _ _ => ?_
  simp only [same, Field.same, sameOrigin_false, SelectionSet.sameOptional_eq_same, Bool.true_and,
    Bool.and_eq_true]
  exact ⟨⟨⟨⟨same_a, same_n⟩, same_as⟩, same_ds⟩, same_set⟩

theorem field_same : SameRuns (field p ss) (field p ss) :=
  .started fun start start' => name_same.bind fun first first' same_first =>
    (Agree.accept .colon).bind fun _ _ same_mark => .ite (by rw [same_mark])
      (fun _ => name_same.bind fun _ _ same_n =>
        fieldRest_same values sets start start' (some first) (some first') same_first same_n)
      fun _ => fieldRest_same values sets start start' none none rfl same_first

/-- An inline fragment from its directives on. -/
theorem inlineRest_same (start start' : Position) (t t' : Option NamedType)
    (same_t : same false t t' = true) :
    SameRuns
      (do
        let ds ← directives p
        let inner ← ss
        return .inlineFragment ⟨some (← spanFrom start), t, ds, inner⟩ : Parser Selection)
      (do
        let ds ← directives p
        let inner ← ss
        return .inlineFragment ⟨some (← spanFrom start'), t', ds, inner⟩) :=
  (directives_same values).bind fun _ _ same_ds => sets.bind fun _ _ same_set =>
    .spanned fun _ _ => by
      simp only [same, Selection.same, InlineFragment.same, sameOrigin_false, Bool.true_and,
        Bool.and_eq_true]
      exact ⟨⟨same_t, same_ds⟩, same_set⟩

theorem fragmentSelection_same : SameRuns (fragmentSelection p ss) (fragmentSelection p ss) := by
  refine .started fun start start' => .marked <| (Agree.atKeyword "on").bind fun on on' same_on =>
    Agree.peek.bind fun t u same_kind => .ite (by rw [same_on, same_kind])
      (fun _ => ?_) fun _ => .ite (by rw [same_on]) (fun _ => ?_) fun _ => ?_
  · exact name_same.bind fun _ _ same_n => (directives_same values).bind fun _ _ same_ds =>
      .spanned fun _ _ => by simpa [same, Selection.same] using And.intro same_n same_ds
  · apply Agree.consumed
    rw [bind_map_left, bind_map_left]
    exact namedType_same.bind fun t t' same_t =>
      inlineRest_same values sets start start' (some t) (some t') same_t
  · exact inlineRest_same values sets start start' none none rfl

theorem selection_same : SameRuns (selection p ss) (selection p ss) :=
  (Agree.atMark .ellipsis).bind fun _ _ same_mark => .ite (by rw [same_mark])
    (fun _ => fragmentSelection_same values sets) fun _ =>
      (field_same values sets).map fun _ _ same_f => by simpa [same, Selection.same] using same_f

end Selections

theorem selectionSet_same (levels : Nat) : SameRuns (selectionSet levels) (selectionSet levels) := by
  induction levels with
  | zero => exact .tooDeep
  | succ levels ih =>
    exact .started fun _ _ => ((selection_same (value_same none levels) ih).many _ _).bind
      fun _ _ same_items => .spanned fun _ _ => by
        simpa [same, SelectionSet.same, Selection.sameAll_eq_same] using same_items

theorem operationKind_same : Agree Eq operationKind operationKind := by
  apply Agree.peek.bind
  intro t u same_kind
  simp only [same_kind]
  split
  · exact .consumed <| .pure rfl
  · exact .unexpected _

section Parts

variable (levels : Nat)

theorem optionalDefault_same (position : ConstPosition) :
    SameRuns (optionalDefault position levels) (optionalDefault position levels) :=
  (Agree.accept .equals).bind fun _ _ same_mark => .ite (by rw [same_mark])
    (fun _ => (value_same _ levels).mapSome) fun _ => .pure rfl

theorem constDirectives_same : SameRuns (constDirectives levels) (constDirectives levels) :=
  directives_same (value_same _ levels)

theorem variableDefinition_same :
    SameRuns (variableDefinition levels) (variableDefinition levels) :=
  .started fun _ _ => variableName_same.bind fun _ _ same_n => .marked <|
    (typeRef_same levels).bind fun _ _ same_t => (optionalDefault_same levels _).bind
      fun _ _ same_v => (constDirectives_same levels).bind fun _ _ same_ds =>
        .spanned fun _ _ => by
          simp only [same, sameOrigin_false, Bool.true_and, Bool.and_eq_true]
          exact ⟨⟨⟨same_n, same_t⟩, same_v⟩, same_ds⟩

theorem operation_same : SameRuns (operation levels) (operation levels) := by
  refine .started fun start start' => (Agree.atMark .openBrace).bind fun _ _ same_mark =>
    .ite (by rw [same_mark]) (fun _ => ?_) fun _ => ?_
  · exact (selectionSet_same levels).bind fun _ _ same_set => .spanned fun _ _ => by
      simpa [same] using same_set
  · exact operationKind_same.bind fun _ _ same_k => Agree.peek.bind fun _ _ same_kind =>
      .ite_bind (by rw [same_kind]) name_same.mapSome (.pure rfl) fun _ _ same_n =>
        ((variableDefinition_same levels).optionalMany _ _).bind fun _ _ same_vs =>
          (directives_same (value_same none levels)).bind fun _ _ same_ds =>
            (selectionSet_same levels).bind fun _ _ same_set => .spanned fun _ _ => by
              subst same_k
              simp only [same, sameOrigin_false, beq_self_eq_true, Bool.true_and,
                Bool.and_eq_true]
              exact ⟨⟨⟨same_n, same_vs⟩, same_ds⟩, same_set⟩

theorem fragment_same : SameRuns (fragment levels) (fragment levels) :=
  .started fun _ _ => .worded <| (unreservedName_same _).bind fun _ _ same_n => .worded <|
    namedType_same.bind fun _ _ same_t => (directives_same (value_same none levels)).bind
      fun _ _ same_ds => (selectionSet_same levels).bind fun _ _ same_set => .spanned fun _ _ => by
        simp only [same, sameOrigin_false, Bool.true_and, Bool.and_eq_true]
        exact ⟨⟨⟨same_n, same_t⟩, same_ds⟩, same_set⟩

theorem interfaces_same : SameRuns interfaces interfaces :=
  (Agree.acceptKeyword _).bind fun _ _ same_word => .ite (by rw [same_word])
    (fun _ => namedType_same.separated _) fun _ => .pure rfl

theorem members_same : SameRuns members members :=
  (Agree.accept _).bind fun _ _ same_mark => .ite (by rw [same_mark])
    (fun _ => namedType_same.separated _) fun _ => .pure rfl

theorem inputDefinition_same : SameRuns (inputDefinition levels) (inputDefinition levels) :=
  .started fun _ _ => optionalString_same.bind fun _ _ same_s => name_same.bind fun _ _ same_n =>
    .marked <| (typeRef_same levels).bind fun _ _ same_t => (optionalDefault_same levels _).bind
      fun _ _ same_v => (constDirectives_same levels).bind fun _ _ same_ds =>
        .spanned fun _ _ => by
          simp only [same, sameOrigin_false, Bool.true_and, Bool.and_eq_true]
          exact ⟨⟨⟨⟨same_s, same_n⟩, same_t⟩, same_v⟩, same_ds⟩

theorem argumentDefinitions_same :
    SameRuns (argumentDefinitions levels) (argumentDefinitions levels) :=
  (inputDefinition_same levels).optionalMany _ _

theorem fieldDefinition_same : SameRuns (fieldDefinition levels) (fieldDefinition levels) :=
  .started fun _ _ => optionalString_same.bind fun _ _ same_s => name_same.bind fun _ _ same_n =>
    (argumentDefinitions_same levels).bind fun _ _ same_as => .marked <|
      (typeRef_same levels).bind fun _ _ same_t => (constDirectives_same levels).bind
        fun _ _ same_ds => .spanned fun _ _ => by
          simp only [same, sameOrigin_false, Bool.true_and, Bool.and_eq_true]
          exact ⟨⟨⟨⟨same_s, same_n⟩, same_as⟩, same_t⟩, same_ds⟩

theorem enumValueDefinition_same :
    SameRuns (enumValueDefinition levels) (enumValueDefinition levels) :=
  .started fun _ _ => optionalString_same.bind fun _ _ same_s => (unreservedName_same _).bind
    fun _ _ same_n => (constDirectives_same levels).bind fun _ _ same_ds => .spanned fun _ _ => by
      simp only [same, sameOrigin_false, Bool.true_and, Bool.and_eq_true]
      exact ⟨⟨same_s, same_n⟩, same_ds⟩

/-- Directives and a body, of the same form as others. -/
theorem typeBody_same (form : TypeForm) :
    Agree (fun a b => same false a.1 b.1 = true ∧ same false a.2 b.2 = true) (typeBody levels form)
      (typeBody levels form) := by
  cases form with
  | scalar => exact (constDirectives_same levels).bind fun _ _ same_ds => .pure ⟨same_ds, rfl⟩
  | object | interface =>
    exact interfaces_same.bind fun _ _ same_is => (constDirectives_same levels).bind
      fun _ _ same_ds => ((fieldDefinition_same levels).optionalMany _ _).bind fun _ _ same_fs =>
        .pure ⟨same_ds, Bool.and_eq_true_iff.mpr ⟨same_is, same_fs⟩⟩
  | union =>
    exact (constDirectives_same levels).bind fun _ _ same_ds => members_same.bind
      fun _ _ same_ms => .pure ⟨same_ds, same_ms⟩
  | enum =>
    exact (constDirectives_same levels).bind fun _ _ same_ds =>
      ((enumValueDefinition_same levels).optionalMany _ _).bind fun _ _ same_vs =>
        .pure ⟨same_ds, same_vs⟩
  | inputObject =>
    exact (constDirectives_same levels).bind fun _ _ same_ds =>
      ((inputDefinition_same levels).optionalMany _ _).bind fun _ _ same_fs =>
        .pure ⟨same_ds, same_fs⟩

theorem typeDefinition_same (form : TypeForm) :
    SameRuns (typeDefinition levels form) (typeDefinition levels form) :=
  .started fun _ _ => optionalString_same.bind fun _ _ same_s => .consumed <| name_same.bind
    fun _ _ same_n => (typeBody_same levels form).bind fun _ _ same_b => .spanned fun _ _ => by
      simp only [same, sameOrigin_false, Bool.true_and, Bool.and_eq_true]
      exact ⟨⟨⟨same_s, same_n⟩, same_b.1⟩, same_b.2⟩

theorem rootType_same : SameRuns rootType rootType :=
  .started fun _ _ => operationKind_same.bind fun _ _ same_k => .marked <| namedType_same.bind
    fun _ _ same_t => .spanned fun _ _ => by
      subst same_k
      simp only [same, sameOrigin_false, beq_self_eq_true, Bool.true_and]
      exact same_t

theorem schemaDefinition_same : SameRuns (schemaDefinition levels) (schemaDefinition levels) :=
  .started fun _ _ => optionalString_same.bind fun _ _ same_s => .worded <|
    (constDirectives_same levels).bind fun _ _ same_ds => (rootType_same.many _ _).bind
      fun _ _ same_rs => .spanned fun _ _ => by
        simp only [same, sameOrigin_false, Bool.true_and, Bool.and_eq_true]
        exact ⟨⟨same_s, same_ds⟩, same_rs⟩

theorem directiveLocation_same : SameRuns directiveLocation directiveLocation := by
  apply Agree.peek.bind
  intro t u _
  apply name_same.bind
  intro n n' same_n
  rw [same_name_iff.mp same_n]
  split
  · exact .pure same_n
  · exact .failAt

theorem directiveDefinition_same :
    SameRuns (directiveDefinition levels) (directiveDefinition levels) :=
  .started fun _ _ => optionalString_same.bind fun _ _ same_s => .worded <| .marked <|
    name_same.bind fun _ _ same_n => (argumentDefinitions_same levels).bind fun _ _ same_as =>
      (Agree.acceptKeyword _).bind fun _ _ same_r => .worded <|
        (directiveLocation_same.separated _).bind fun _ _ same_ls => .spanned fun _ _ => by
          subst same_r
          simp only [same, sameOrigin_false, beq_self_eq_true, Bool.true_and, Bool.and_true,
            Bool.and_eq_true]
          exact ⟨⟨⟨same_s, same_n⟩, same_as⟩, same_ls⟩

theorem same_isEmpty [Comparable α] {as bs : List α} (h : same false as bs = true) :
    as.isEmpty = bs.isEmpty := by
  cases as <;> cases bs <;> simp_all [same, List.isEqv]

theorem same_body_isEmpty {b b' : TypeBody} (h : same false b b' = true) :
    b.isEmpty = b'.isEmpty := by
  cases b <;> cases b' <;> try cases h
  case scalar => rfl
  case object | interface =>
    obtain ⟨same_is, same_fs⟩ := Bool.and_eq_true_iff.mp h
    simp only [TypeBody.isEmpty, same_isEmpty same_is, same_isEmpty same_fs]
  case union | enum | inputObject => exact same_isEmpty h

theorem schemaExtension_same (start start' : Position) :
    SameRuns (schemaExtension levels start) (schemaExtension levels start') :=
  (constDirectives_same levels).bind fun _ _ same_ds => (rootType_same.optionalMany _ _).bind
    fun _ _ same_rs => .ite (by rw [same_isEmpty same_ds, same_isEmpty same_rs])
      (fun _ => .unexpected _) fun _ => .spanned fun _ _ => by
        simp only [same, sameOrigin_false, Bool.true_and, Bool.and_eq_true]
        exact ⟨same_ds, same_rs⟩

theorem typeExtension_same (start start' : Position) (form : TypeForm) :
    SameRuns (typeExtension levels start form) (typeExtension levels start' form) :=
  name_same.bind fun _ _ same_n => (typeBody_same levels form).bind fun _ _ same_b =>
    .ite (by rw [same_isEmpty same_b.1, same_body_isEmpty same_b.2])
      (fun _ => .unexpected _) fun _ => .spanned fun _ _ => by
        simp only [same, sameOrigin_false, Bool.true_and, Bool.and_eq_true]
        exact ⟨⟨same_n, same_b.1⟩, same_b.2⟩

theorem extension_same : SameRuns (extension levels) (extension levels) := by
  apply Agree.started
  intro start start'
  apply Agree.lookahead.bind
  intro t u same_kind
  rw [same_kind]
  split
  · exact .consumed <| .consumed <|
      (schemaExtension_same levels start start').map fun _ _ same_x => same_x
  · exact .consumed <| .consumed <|
      (typeExtension_same levels start start' _).map fun _ _ same_x => same_x
  · exact .unexpectedAt same_kind _

theorem definitionAt_same (w : DefinitionKeyword) :
    SameRuns (definitionAt levels w) (definitionAt levels w) := by
  cases w with
  | operation k => exact (operation_same levels).map fun _ _ same_x => same_x
  | fragment => exact (fragment_same levels).map fun _ _ same_x => same_x
  | schema => exact (schemaDefinition_same levels).map fun _ _ same_x => same_x
  | directive => exact (directiveDefinition_same levels).map fun _ _ same_x => same_x
  | extend => exact extension_same levels
  | type form => exact (typeDefinition_same levels form).map fun _ _ same_x => same_x

theorem definition_same : SameRuns (definition levels) (definition levels) := by
  apply Agree.peek.bind
  intro t u same_kind
  apply Agree.ite (by rw [same_kind])
  · exact fun _ => (operation_same levels).map fun _ _ same_x => same_x
  intro _
  apply Agree.ite_bind (by rw [same_kind]) Agree.lookahead Agree.peek
  intro leading leading' same_leading
  simp only [definitionBy, lifted_self, same_leading]
  refine .ite (by rw [same_kind]) (fun _ => .failAt) fun _ => ?_
  split
  · exact definitionAt_same levels _
  · exact .unexpected _

theorem definitions_same : SameRuns (definitions levels) (definitions levels) :=
  .collect <| Agree.peek.bind fun _ _ same_kind => .ite (by rw [same_kind]) (fun _ => .pure rfl)
    fun _ => (definition_same levels).round

theorem document_same : SameRuns (document levels) (document levels) := by
  refine (definition_same levels).bind fun d d' same_first =>
    (definitions_same levels).bind fun ds ds' same_others => ?_
  have same_all : same false (d :: ds) (d' :: ds') = true :=
    Bool.and_eq_true_iff.mpr ⟨same_first, same_others⟩
  exact .spanned fun _ _ => same_all

end Parts
end GraphQL.Parser
