import GraphQL.Proofs.Nesting.Repetition

/-! The productions of the grammar in two runs, each from the productions that it is made of. -/
namespace GraphQL.Parser

open GraphQL.Tree

variable {α : Type} {c : Cursor} {l m n calls : Nat}

namespace Plain

theorem name : Plain name := by
  apply peek.bind
  intro t
  split
  · exact consume.bind fun _ => (originOf t).bind fun _ => .pure _
  · exact unexpected _

theorem variableName : Plain variableName := (expect _).bind fun _ => name

theorem namedType : Plain namedType := name.bind fun _ => .pure _

/-- A token that is looked at first is where errors stand. -/
theorem peek_bind {f : Token → Parser α} (rest : PlainRun c c (f c.current)) :
    PlainRun c c (Parser.peek >>= f) := rest.congr fun _ => rfl

/-- An error at a token, once what it starts has been read. -/
theorem failAt {c₀ : Cursor} {v : Violation} {t : Token} (place : t ∈ c₀.pending)
    (reaches : c₀.Reaches c) (other : ∀ limit, v ≠ .nesting limit) :
    PlainRun c₀ c (do fail v (← Parser.originOf t) : Parser α) := by
  apply (originOf t c).bind reaches
  intro o c' ran onward
  obtain ⟨rfl, rfl⟩ := originOf_ok.mp ran
  exact .fail place rfl other

theorem unreservedName (role : ReservingRole) : Plain (unreservedName role) := by
  intro c
  apply peek_bind
  apply (name c).bind (.refl c)
  intro n c' ran reaches
  split
  · exact failAt (by simp [Cursor.pending]) reaches (by simp)
  · exact .pure reaches n

theorem directiveLocation : Plain directiveLocation := by
  intro c
  apply peek_bind
  apply (name c).bind (.refl c)
  intro n c' ran reaches
  split
  · exact .pure reaches n
  · exact failAt (by simp [Cursor.pending]) reaches (by simp)

theorem optionalString : Plain optionalString := by
  intro c
  apply peek_bind
  split
  · exact .pure (.refl c) none
  · apply (consume c).bind (.refl c)
    intro t c' ran reaches
    apply (originOf c.current c').bind reaches
    intro o c'' at_token onward
    obtain ⟨rfl, rfl⟩ := originOf_ok.mp at_token
    split
    · exact .pure reaches _
    · exact .fail (t := c.current) (by simp [Cursor.pending]) rfl (by simp)

theorem operationKind : Plain operationKind := by
  apply peek.bind
  intro t
  dsimp only
  split
  · exact consume.bind fun _ => .pure _
  · exact unexpected _

theorem rootType : Plain rootType :=
  here.bind fun start => operationKind.bind fun _ => (expect _).bind fun _ => namedType.bind fun _ =>
    (spanFrom start).bind fun _ => .pure _

/-- What depends on the origin so far. -/
theorem spanned {β : Type} {c₀ : Cursor} {start : Position} {f : Origin → Parser β}
    (reaches : c₀.Reaches c) (rest : ∀ o, o.start = start → PlainRun c₀ c (f o)) :
    PlainRun c₀ c (Parser.spanFrom start >>= f) := by
  apply (spanFrom start c).bind reaches
  intro o c' at_span onward
  obtain ⟨rfl, rfl⟩ := spanFrom_ok.mp at_span
  exact rest _ rfl

theorem stringValue : Plain (do
    match ← Parser.optionalString with
    | some s => return .string s
    | none => Parser.unexpected (some .value) : Parser Value) := by
  apply optionalString.bind
  intro o
  split
  · exact .pure _
  · exact unexpected _

/-- Values that nothing stands in. -/
theorem leafValue (position : Option ConstPosition) : Plain (leafValue position) := by
  intro c
  have current : c.current ∈ c.pending := by simp [Cursor.pending]
  apply peek_bind
  split
  · apply (variableName c).bind (.refl c)
    intro n c' _ reaches
    apply spanned reaches
    intro o start
    split
    · exact .pure reaches _
    · exact .fail current start (by simp)
  · apply (consume c).bind (.refl c)
    intro _ c' _ reaches
    apply spanned reaches
    intro o start
    split
    · exact .pure reaches _
    · exact .fail current start (by simp)
  · apply (consume c).bind (.refl c)
    intro _ c' _ reaches
    apply spanned reaches
    intro o start
    split
    · exact .pure reaches _
    · exact .fail current start (by simp)
  · exact stringValue c
  · exact stringValue c
  · exact (consume c).bind (.refl c) fun _ c' _ reaches => spanned reaches fun o _ => .pure reaches _
  · exact unexpected _ c

end Plain

section Values

variable {p : Metered Value} {q : Parser Value}
  (values : Settles l m 0 False (fun v => [v.tree]) p q)
include values

theorem objectField_settles : Settles l m 0 False (fun f => [f.tree]) (objectField p)
    (objectField q) :=
  .plain_bind .here fun start => .plain_bind .name fun n => .plain_bind (.expect _) fun _ =>
    values.bind fun v => .plain_bind (.spanFrom start) fun o => .pure fun deep =>
      rowExceeds_flat (.objectField ⟨some o, n, v⟩) rfl rfl (by grind)

/-- Only in lists and objects does anything nest, and then after their opening marks. -/
theorem valueWith_settles (position : Option ConstPosition) :
    Settles l m 1 False (·.tree.children) (valueWith position p) (valueWith position q) := by
  refine .plain_bind .peek fun t => ?_
  split
  · exact (values.any _ _).bind fun vs => .plain_bind (.spanFrom _) fun o => .pure <| by
      simp [Value.tree, children, Value.trees_eq_map]
  · exact ((objectField_settles values).any _ _).bind fun fs => .plain_bind (.spanFrom _) fun o =>
      .pure <| by simp [Value.tree, children, ObjectField.trees_eq_map]
  · exact .plain (.leafValue position)

theorem argument_settles : Settles l m 0 False (fun a => [a.tree]) (argument p)
    (argument q) :=
  .plain_bind .here fun start => .plain_bind .name fun n => .plain_bind (.expect _) fun _ =>
    values.bind fun v => .plain_bind (.spanFrom start) fun o => .pure fun deep =>
      rowExceeds_flat (.argument ⟨some o, n, v⟩) rfl rfl (by grind)

theorem arguments_settles : Settles l m 0 False (·.map (·.tree)) (arguments p)
    (arguments q) := (argument_settles values).optionalMany _ _

theorem directive_settles : Settles l m 0 False (fun d => [d.tree]) (directive p)
    (directive q) :=
  .plain_bind .here fun start => .plain_bind (.expect _) fun _ => .plain_bind .name fun n =>
    (arguments_settles values).bind fun as => .plain_bind (.spanFrom start) fun o => .pure fun deep =>
      rowExceeds_flat (.directive ⟨some o, n, as⟩) rfl rfl (by grind)

theorem directives_settles : Settles l m 0 False (·.map (·.tree)) (directives p)
    (directives q) := (directive_settles values).whileAt _

variable {ss : Metered SelectionSet} {ss' : Parser SelectionSet}
  (selections : Settles l m 0 False (fun s => [s.tree]) ss ss')
include selections

/-- A field from its arguments on. -/
theorem fieldRest_settles (start : Position) (aliasName : Option Name) (n : Name) :
    Settles l m 0 False (fun f => [f.tree])
      (do
        let args ← arguments p
        let ds ← directives p
        let inner ← if ← atMark .openBrace then some <$> ss else pure none
        return ⟨some (← spanFrom start), aliasName, n, args, ds, inner⟩ : Metered Field)
      (do
        let args ← arguments q
        let ds ← directives q
        let inner ← if ← atMark .openBrace then some <$> ss' else pure none
        return ⟨some (← spanFrom start), aliasName, n, args, ds, inner⟩) := by
  apply (arguments_settles values).bind
  intro as
  apply (directives_settles values).bind
  intro ds
  have node (inner : Option SelectionSet) (o : Origin)
      (deep : RowExceeds l (as.map (·.tree)) ∨ RowExceeds l (ds.map (·.tree)) ∨
        RowExceeds l (SelectionSet.optionalTree inner)) :
      RowExceeds l [(Field.mk (some o) aliasName n as ds inner).tree] :=
    rowExceeds_flat (.field ⟨some o, aliasName, n, as, ds, inner⟩) rfl rfl (by grind)
  refine .plain_bind (.atMark _) fun b => .ite (fun _ => ?_) fun _ => ?_
  · have some_set : Settles l m 0 False SelectionSet.optionalTree (some <$> ss) (some <$> ss') :=
      selections.map fun _ deep => deep
    exact some_set.bind fun inner => .plain_bind (.spanFrom start) fun o =>
      .pure fun deep => node inner o (by grind)
  · have no_set : Settles l m 0 False SelectionSet.optionalTree (pure none) (pure none) :=
      .pure False.elim
    exact no_set.bind fun inner => .plain_bind (.spanFrom start) fun o =>
      .pure fun deep => node inner o (by grind)

theorem field_settles : Settles l m 0 False (fun f => [f.tree]) (field p ss)
    (field q ss') := by
  refine .plain_bind .here fun start => .plain_bind .name fun first =>
    .plain_bind (.accept _) fun b => .ite (fun _ => ?_) fun _ => ?_
  · exact .plain_bind .name fun n => fieldRest_settles values selections start (some first) n
  · exact fieldRest_settles values selections start none first

/-- An inline fragment from its directives on. -/
theorem inlineRest_settles (start : Position) (condition : Option NamedType) :
    Settles l m 0 False (fun s => [s.tree])
      (do
        let ds ← directives p
        let inner ← ss
        return .inlineFragment ⟨some (← spanFrom start), condition, ds, inner⟩ : Metered Selection)
      (do
        let ds ← directives q
        let inner ← ss'
        return .inlineFragment ⟨some (← spanFrom start), condition, ds, inner⟩) :=
  (directives_settles values).bind fun ds => selections.bind fun inner =>
    .plain_bind (.spanFrom start) fun o => .pure fun deep =>
      rowExceeds_flat (.inlineFragment ⟨some o, condition, ds, inner⟩) rfl rfl (by grind)

theorem fragmentSelection_settles : Settles l m 0 False (fun s => [s.tree])
    (fragmentSelection p ss) (fragmentSelection q ss') := by
  refine .plain_bind .here fun start => .plain_bind (.expect _) fun _ =>
    .plain_bind (.atKeyword _) fun conditioned => .plain_bind .peek fun t =>
      .ite (fun _ => ?_) fun _ => .ite (fun _ => ?_) fun _ => ?_
  · exact .plain_bind .name fun n => (directives_settles values).bind fun ds =>
      .plain_bind (.spanFrom start) fun o => .pure fun deep =>
        rowExceeds_flat (.spread ⟨some o, n, ds⟩) rfl rfl (by grind)
  · exact .plain_bind .consume fun _ => .plain_map_bind .namedType fun condition =>
      inlineRest_settles values selections start condition
  · exact inlineRest_settles values selections start none

theorem selection_settles : Settles l m 0 False (fun s => [s.tree]) (selection p ss)
    (selection q ss') :=
  .plain_bind (.atMark _) fun _ =>
    .ite (fun _ => fragmentSelection_settles values selections) fun _ =>
      (field_settles values selections).map fun _ deep => deep

end Values

theorem value_settles (position : Option ConstPosition) (levels : l ≤ m) (enough : l < calls) :
    Settles l m 0 False (fun v => [v.tree]) (value position calls) (value position m) := by
  induction m generalizing l calls with
  | zero =>
    obtain rfl : l = 0 := by omega
    cases calls with
    | zero => omega
    | succ calls => exact .guarded_tooDeep
  | succ m ih =>
    cases calls with
    | zero => omega
    | succ calls =>
      exact .guarded_node Node.value (fun _ => rfl)
        ⟨_, valueWith_settles (ih (Nat.le_refl m) (Nat.lt_succ_self m)) position⟩
        fun k level => valueWith_settles (ih (by omega) (by omega)) position

/-- The non-null mark after a type, if there is one. -/
theorem nonNullMark_settles {D : Prop} (start : Position) (bare : NullableType)
    (deep : D → RowExceeds l [bare.tree]) :
    Settles l m n D (fun t => [t.tree])
      (do
        if ← accept .bang then return .nonNull (some (← spanFrom start)) bare
        else return .nullable bare : Metered TypeRef)
      (do
        if ← accept .bang then return .nonNull (some (← spanFrom start)) bare
        else return .nullable bare) :=
  .plain_bind (.accept _) fun _ =>
    .ite (fun _ => .plain_bind (.spanFrom start) fun o => .pure fun d =>
      rowExceeds_flat (.type (.nonNull (some o) bare)) rfl rfl (deep d)) fun _ => .pure deep

/-- Where a list stands does not matter to how deep it goes. -/
theorem rowExceeds_list {o o' : Option Origin} {e : TypeRef}
    (h : RowExceeds l [(NullableType.list o e).tree]) :
    RowExceeds l [(NullableType.list o' e).tree] := by
  cases l with
  | zero => exact rowExceeds_zero (.type (.nullable (.list o' e))) rfl
  | succ l =>
    have below := (rowExceeds_nested (.type (.nullable (.list o e))) rfl).mp h
    exact (rowExceeds_nested (.type (.nullable (.list o' e))) rfl).mpr below

/-- The elements of lists are read after the opening marks. -/
theorem typeRefWith_settles {p : Metered TypeRef} {q : Parser TypeRef}
    (element : Settles l m 0 False (fun e => [(NullableType.list none e).tree]) p q) :
    Settles l m 1 False (fun t => [t.tree]) (typeRefWith p) (typeRefWith q) := by
  refine .plain_bind .here fun start => .accept_bind ?_ ?_
  · exact element.bind fun e => .plain_bind (.expect _) fun _ => .plain_bind (.spanFrom start)
      fun o => nonNullMark_settles start (.list (some o) e) fun deep =>
        rowExceeds_list (deep.resolve_left id)
  · exact .plain_map_bind .namedType fun bare => nonNullMark_settles start bare False.elim

theorem typeRef_settles (levels : l ≤ m) (enough : l < calls) :
    Settles l m 1 False (fun t => [t.tree]) (typeRef calls) (typeRef m) := by
  induction m generalizing l calls with
  | zero =>
    obtain rfl : l = 0 := by omega
    cases calls with
    | zero => omega
    | succ calls => exact typeRefWith_settles (p := nested (typeRef calls)) .guarded_tooDeep
  | succ m ih =>
    cases calls with
    | zero => omega
    | succ calls =>
      apply typeRefWith_settles (p := nested (typeRef calls)) (q := typeRef m)
      cases l with
      | zero =>
        exact .guarded_stops ⟨_, ih (Nat.le_refl m) (Nat.lt_succ_self m)⟩ fun e =>
          rowExceeds_zero (.type (.nullable (.list none e))) rfl
      | succ l =>
        exact (ih (by omega) (by omega)).guarded fun e =>
          (rowExceeds_nested (.type (.nullable (.list none e))) rfl).mpr

theorem selectionSet_settles (levels : l ≤ m) (enough : l < calls) :
    Settles l m 0 False (fun s => [s.tree]) (selectionSet calls) (selectionSet m) := by
  induction m generalizing l calls with
  | zero =>
    obtain rfl : l = 0 := by omega
    cases calls with
    | zero => omega
    | succ calls =>
      rw [selectionSet, selectionSet]
      exact .guarded_tooDeep
  | succ m ih =>
    cases calls with
    | zero => omega
    | succ calls =>
      have items {k calls : Nat} (levels : k ≤ m) (enough : k < calls) :
          Settles k m 1 False (fun s => s.tree.children)
            (do
              let start ← here
              let items ← many .openBrace .closeBrace
                (selection (value none calls) (selectionSet calls))
              return ⟨some (← spanFrom start), items⟩ : Metered SelectionSet)
            (do
              let start ← here
              let items ← many .openBrace .closeBrace (selection (value none m) (selectionSet m))
              return ⟨some (← spanFrom start), items⟩) :=
        .plain_bind .here fun start =>
          ((selection_settles (value_settles none levels enough) (ih levels enough)).many _ _).bind
            fun ss => .plain_bind (.spanFrom start) fun o => .pure <| by
              simp [SelectionSet.tree, children, Selection.trees_eq_map]
      rw [selectionSet, selectionSet]
      exact .guarded_node Node.selectionSet (fun _ => rfl)
        ⟨_, items (Nat.le_refl m) (Nat.lt_succ_self m)⟩ fun k level => items (by omega) (by omega)

theorem namedType_settles : Settles l m n False (fun t => [t.tree]) (liftM namedType) namedType :=
  .plain .namedType

theorem rootType_settles : Settles l m n False (fun t => [t.tree]) (liftM rootType) rootType :=
  .plain .rootType

theorem directiveLocation_settles :
    Settles l m n False (fun n => [n.tree]) (liftM directiveLocation) directiveLocation :=
  .plain .directiveLocation

theorem interfaces_settles :
    Settles l m n False (·.map (·.tree)) interfaces interfaces :=
  .plain_bind (.acceptKeyword _) fun _ =>
    .ite (fun _ => namedType_settles.separated _) fun _ => .pure (by simp)

theorem members_settles : Settles l m n False (·.map (·.tree)) members members :=
  .plain_bind (.accept _) fun _ =>
    .ite (fun _ => namedType_settles.separated _) fun _ => .pure (by simp)

section Definitions

variable (levels : l ≤ m) (enough : l < calls)
include levels enough

theorem optionalDefault_settles (position : ConstPosition) :
    Settles l m 0 False (·.toList.map (·.tree)) (optionalDefault position calls)
      (optionalDefault position m) :=
  .plain_bind (.accept _) fun _ =>
    .ite (fun _ => (value_settles _ levels enough).map fun _ deep => deep) fun _ => .pure (by simp)

theorem constDirectives_settles :
    Settles l m 0 False (·.map (·.tree)) (constDirectives calls) (constDirectives m) :=
  directives_settles (value_settles _ levels enough)

theorem variableDefinition_settles :
    Settles l m 0 False (fun d => [d.tree]) (variableDefinition calls)
      (variableDefinition m) :=
  .plain_bind .here fun start => .plain_bind .variableName fun n => .plain_bind (.expect _) fun _ =>
    (typeRef_settles levels enough).lessRoom.bind fun t =>
      (optionalDefault_settles levels enough _).bind fun v =>
        (constDirectives_settles levels enough).bind fun ds =>
          .plain_bind (.spanFrom start) fun o => .pure fun deep =>
            rowExceeds_flat (.variableDefinition ⟨some o, n, t, v, ds⟩) rfl rfl (by grind)

/-- An operation from its variables on. -/
theorem operationRest_settles (start : Position) (kind : OperationKind) (n : Option Name) :
    Settles l m 0 False (fun d => [d.tree])
      (do
        let variableDefinitions ←
          optionalMany .openParen .closeParen (variableDefinition calls)
        let ds ← directives (value none calls)
        let inner ← selectionSet calls
        return ⟨some (← spanFrom start), kind, n, variableDefinitions, ds, inner⟩ :
        Metered OperationDefinition)
      (do
        let variableDefinitions ← optionalMany .openParen .closeParen (variableDefinition m)
        let ds ← directives (value none m)
        let inner ← selectionSet m
        return ⟨some (← spanFrom start), kind, n, variableDefinitions, ds, inner⟩) :=
  ((variableDefinition_settles levels enough).optionalMany _ _).bind fun vs =>
    (directives_settles (value_settles _ levels enough)).bind fun ds =>
      (selectionSet_settles levels enough).bind fun inner =>
        .plain_bind (.spanFrom start) fun o => .pure fun deep =>
          rowExceeds_flat (.operation ⟨some o, kind, n, vs, ds, inner⟩) rfl rfl (by grind)

theorem operation_settles :
    Settles l m 0 False (fun d => [d.tree]) (operation calls) (operation m) := by
  refine .plain_bind .here fun start => .plain_bind (.atMark _) fun _ => .ite (fun _ => ?_) fun _ =>
    .plain_bind .operationKind fun kind => .plain_bind .peek fun t => .ite (fun _ => ?_) fun _ => ?_
  · exact (selectionSet_settles levels enough).bind fun inner => .plain_bind (.spanFrom start)
      fun o => .pure fun deep =>
        rowExceeds_flat (.operation ⟨some o, .query, none, [], [], inner⟩) rfl rfl (by grind)
  · exact .plain_map_bind .name fun n => operationRest_settles levels enough start kind n
  · exact operationRest_settles levels enough start kind none

theorem fragment_settles :
    Settles l m 0 False (fun d => [d.tree]) (fragment calls) (fragment m) :=
  .plain_bind .here fun start => .plain_bind (.expectKeyword _) fun _ =>
    .plain_bind (.unreservedName _) fun n => .plain_bind (.expectKeyword _) fun _ =>
      .plain_bind .namedType fun t => (directives_settles (value_settles _ levels enough)).bind
        fun ds => (selectionSet_settles levels enough).bind fun inner =>
          .plain_bind (.spanFrom start) fun o => .pure fun deep =>
            rowExceeds_flat (.fragment ⟨some o, n, t, ds, inner⟩) rfl rfl (by grind)

theorem inputDefinition_settles :
    Settles l m 0 False (fun d => [d.tree]) (inputDefinition calls) (inputDefinition m) :=
  .plain_bind .here fun start => .plain_bind .optionalString fun description =>
    .plain_bind .name fun n => .plain_bind (.expect _) fun _ =>
      (typeRef_settles levels enough).lessRoom.bind fun t =>
        (optionalDefault_settles levels enough _).bind fun v =>
          (constDirectives_settles levels enough).bind fun ds =>
            .plain_bind (.spanFrom start) fun o => .pure fun deep =>
              rowExceeds_flat (.inputDefinition ⟨some o, description, n, t, v, ds⟩) rfl rfl
                (by grind)

theorem argumentDefinitions_settles :
    Settles l m 0 False (·.map (·.tree)) (argumentDefinitions calls)
      (argumentDefinitions m) :=
  (inputDefinition_settles levels enough).optionalMany _ _

theorem fieldDefinition_settles :
    Settles l m 0 False (fun d => [d.tree]) (fieldDefinition calls) (fieldDefinition m) :=
  .plain_bind .here fun start => .plain_bind .optionalString fun description =>
    .plain_bind .name fun n => (argumentDefinitions_settles levels enough).bind fun as =>
      .plain_bind (.expect _) fun _ => (typeRef_settles levels enough).lessRoom.bind fun t =>
        (constDirectives_settles levels enough).bind fun ds =>
          .plain_bind (.spanFrom start) fun o => .pure fun deep =>
            rowExceeds_flat (.fieldDefinition ⟨some o, description, n, as, t, ds⟩) rfl rfl
              (by grind)

theorem enumValueDefinition_settles :
    Settles l m 0 False (fun d => [d.tree]) (enumValueDefinition calls)
      (enumValueDefinition m) :=
  .plain_bind .here fun start => .plain_bind .optionalString fun description =>
    .plain_bind (.unreservedName _) fun n => (constDirectives_settles levels enough).bind fun ds =>
      .plain_bind (.spanFrom start) fun o => .pure fun deep =>
        rowExceeds_flat (.enumValueDefinition ⟨some o, description, n, ds⟩) rfl rfl (by grind)

theorem typeBody_settles (form : TypeForm) :
    Settles l m 0 False
      (fun r => r.2.leadingTrees ++ r.1.map (·.tree) ++ r.2.trailingTrees)
      (typeBody calls form) (typeBody m form) := by
  have directives := constDirectives_settles levels enough
  have fields := (fieldDefinition_settles levels enough).optionalMany .openBrace .closeBrace
  cases form with
  | scalar => exact directives.bind fun ds => .pure fun deep => by grind
  | object | interface =>
    exact interfaces_settles.bind fun is => directives.bind fun ds => fields.bind fun fs =>
      .pure fun deep => by grind [TypeBody.leadingTrees, TypeBody.trailingTrees]
  | union =>
    exact directives.bind fun ds => members_settles.bind fun ms =>
      .pure fun deep => by grind [TypeBody.leadingTrees, TypeBody.trailingTrees]
  | enum =>
    exact directives.bind fun ds =>
      ((enumValueDefinition_settles levels enough).optionalMany _ _).bind fun vs =>
        .pure fun deep => by grind [TypeBody.leadingTrees, TypeBody.trailingTrees]
  | inputObject =>
    exact directives.bind fun ds =>
      ((inputDefinition_settles levels enough).optionalMany _ _).bind fun fs =>
        .pure fun deep => by grind [TypeBody.leadingTrees, TypeBody.trailingTrees]

theorem typeDefinition_settles (form : TypeForm) :
    Settles l m 0 False (fun d => [d.tree]) (typeDefinition calls form)
      (typeDefinition m form) :=
  .plain_bind .here fun start => .plain_bind .optionalString fun description =>
    .plain_bind .consume fun _ => .plain_bind .name fun n =>
      (typeBody_settles levels enough form).bind fun ⟨ds, body⟩ =>
        .plain_bind (.spanFrom start) fun o => .pure fun deep =>
          rowExceeds_flat (.typeDefinition ⟨some o, description, n, ds, body⟩) rfl rfl (by grind)

theorem schemaDefinition_settles :
    Settles l m 0 False (fun d => [d.tree]) (schemaDefinition calls) (schemaDefinition m) :=
  .plain_bind .here fun start => .plain_bind .optionalString fun description =>
    .plain_bind (.expectKeyword _) fun _ => (constDirectives_settles levels enough).bind fun ds =>
      (rootType_settles.many _ _).lessRoom.bind fun ts => .plain_bind (.spanFrom start) fun o =>
        .pure fun deep =>
          rowExceeds_flat (.schema ⟨some o, description, ds, ts⟩) rfl rfl (by grind)

theorem directiveDefinition_settles :
    Settles l m 0 False (fun d => [d.tree]) (directiveDefinition calls)
      (directiveDefinition m) :=
  .plain_bind .here fun start => .plain_bind .optionalString fun description =>
    .plain_bind (.expectKeyword _) fun _ => .plain_bind (.expect _) fun _ =>
      .plain_bind .name fun n => (argumentDefinitions_settles levels enough).bind fun as =>
        .plain_bind (.acceptKeyword _) fun b => .plain_bind (.expectKeyword _) fun _ =>
          (directiveLocation_settles.separated _).bind fun ls =>
            .plain_bind (.spanFrom start) fun o => .pure fun deep =>
              rowExceeds_flat (.directiveDefinition ⟨some o, description, n, as, b, ls⟩) rfl rfl
                (by grind)

theorem schemaExtension_settles (start : Position) :
    Settles l m 0 False (fun e => [e.tree]) (schemaExtension calls start)
      (schemaExtension m start) := by
  refine (constDirectives_settles levels enough).bind fun ds =>
    (rootType_settles.optionalMany _ _).bind fun ts => .ite (fun _ => ?_) fun _ => ?_
  · exact .unexpected none
  · exact .plain_bind (.spanFrom start) fun o => .pure fun deep =>
      rowExceeds_flat (.schemaExtension ⟨some o, ds, ts⟩) rfl rfl (by grind)

theorem typeExtension_settles (start : Position) (form : TypeForm) :
    Settles l m 0 False (fun e => [e.tree]) (typeExtension calls start form)
      (typeExtension m start form) := by
  refine .plain_bind .name fun n => (typeBody_settles levels enough form).bind fun ⟨ds, body⟩ =>
    .ite (fun _ => ?_) fun _ => ?_
  · exact .unexpected none
  · exact .plain_bind (.spanFrom start) fun o => .pure fun deep =>
      rowExceeds_flat (.typeExtension ⟨some o, n, ds, body⟩) rfl rfl (by grind)

theorem extension_settles :
    Settles l m 0 False (fun d => [d.tree]) (extension calls) (extension m) := by
  refine .plain_bind .here fun start => fun c r sound level fits => ?_
  refine .lookahead_bind sound fits fun next place => ?_
  generalize DefinitionKeyword.ofToken? next.kind = keyword
  have schema : Settles l m 0 False (fun d => [d.tree])
      (Definition.schemaExtension <$> schemaExtension calls start)
      (Definition.schemaExtension <$> schemaExtension m start) :=
    (schemaExtension_settles levels enough start).map fun _ deep => deep
  have type (form : TypeForm) : Settles l m 0 False (fun d => [d.tree])
      (Definition.typeExtension <$> typeExtension calls start form)
      (Definition.typeExtension <$> typeExtension m start form) :=
    (typeExtension_settles levels enough start form).map fun _ deep => deep
  have other : Settled c r l m 0 False (fun d => [d.tree])
      ((liftM (unexpectedAt next (some .extension) : Parser Definition) : Metered Definition) c r)
      ((unexpectedAt next (some .extension) : Parser Definition) (c.limited (r.depth + m))) := by
    refine ⟨rfl, fits, .fails (.inl ⟨next, place, rfl⟩) ?_⟩
    simp
  cases keyword with
  | none => exact other
  | some keyword =>
    cases keyword with
    | schema =>
      exact Settles.plain_bind .consume (fun _ => .plain_bind .consume fun _ => schema) sound level
        fits
    | type form =>
      exact Settles.plain_bind .consume (fun _ => .plain_bind .consume fun _ => type form) sound
        level fits
    | _ => exact other

theorem definitionAt_settles (w : DefinitionKeyword) :
    Settles l m 0 False (fun d => [d.tree]) (definitionAt calls w) (definitionAt m w) := by
  cases w with
  | operation k => exact (operation_settles levels enough).map fun _ deep => deep
  | fragment => exact (fragment_settles levels enough).map fun _ deep => deep
  | schema => exact (schemaDefinition_settles levels enough).map fun _ deep => deep
  | directive => exact (directiveDefinition_settles levels enough).map fun _ deep => deep
  | extend => exact extension_settles levels enough
  | type form => exact (typeDefinition_settles levels enough form).map fun _ deep => deep

/-- A description that describes nothing is refused where it stands. -/
theorem definitionBy_settles {r : Register} (sound : c.Sound) (level : r.depth + l = c.limit)
    (fits : r.Fits c.limit) (leading : Token) :
    Settled c r l m 0 False (fun d : Definition => [d.tree])
      (definitionBy (m := Metered) calls c.current leading c r)
      (definitionBy (m := Parser) m c.current leading (c.limited (r.depth + m))) := by
  simp only [definitionBy, lifted_self]
  split
  · refine ⟨rfl, fits, .fails (SyntaxError.at_current rfl) ?_⟩
    simp
  · cases DefinitionKeyword.ofToken? leading.kind with
    | some w => exact definitionAt_settles levels enough w sound level fits
    | none => exact Settles.unexpected _ sound level fits

theorem definition_settles :
    Settles l m 0 False (fun d => [d.tree]) (definition calls) (definition m) := by
  intro c r sound level fits
  simp only [definition, lifted_self]
  rw [peek_bind, c.limited_current, metered_peek_bind]
  by_cases braces : c.current.kind = .punctuator .openBrace
  · rw [if_pos braces, if_pos braces]
    exact (operation_settles levels enough).map (fun _ deep => deep) sound level fits
  · rw [if_neg braces, if_neg braces]
    by_cases string : c.current.kind.isString = true
    · rw [if_pos string, if_pos string]
      exact .lookahead_bind sound fits fun leading _ =>
        definitionBy_settles levels enough sound level fits leading
    · rw [if_neg string, if_neg string]
      exact definitionBy_settles levels enough sound level fits c.current

theorem definitions_settles :
    Settles l m 0 False (·.map (·.tree)) (definitions calls) (definitions m) := by
  refine .collect (.plain_bind .peek fun t => .ite (fun _ => ?_) fun _ => ?_)
  · exact .pure (by simp)
  · exact (definition_settles levels enough).bind fun d => .pure (by simp)

theorem document_settles :
    Settles l m 0 False (fun d => [d.tree]) (document calls) (document m) :=
  (definition_settles levels enough).bind fun first =>
    (definitions_settles levels enough).bind fun rest => .plain_bind (.spanFrom _) fun o =>
      .pure fun deep => rowExceeds_flat (.document ⟨some o, first :: rest⟩) rfl rfl (by grind)

end Definitions

/-- What makes up the whole input. -/
theorem alone_settles {tree : α → Tree Node} {p : Metered α} {q : Parser α}
    (h : Settles l m 0 False (fun a => [tree a]) p q) :
    Settles l m 0 False (fun a => [tree a]) (alone p) (alone q) :=
  h.bind fun _ => .plain_bind .expectEnd fun _ => .pure fun deep => deep.resolve_left id

end GraphQL.Parser
