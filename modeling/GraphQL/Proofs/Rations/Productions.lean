import GraphQL.Proofs.Nesting.Productions
import GraphQL.Proofs.Rations.Lasting

/-! The rations of the productions of the grammar, each from those of the productions that it is made of.
Whatever may be an item of a list takes a token. -/
namespace GraphQL.Rationed

open GraphQL.Parser

variable {α : Type} {c : Cursor} {ration : Ration} {rounds calls levels : Nat}

section Leaves

variable {position : Option ConstPosition} (ready : c.Ready)
include ready

theorem stringToken_takes (string : c.current.kind.stringValue? ≠ none) :
    TakesFrom 1 c optionalString := by
  have more : c.current.kind ≠ .endOfInput := by
    intro at_end
    exact string (by rw [at_end]; rfl)
  apply TakesFrom.peek_bind
  split
  · next none => exact absurd none string
  · refine (TakesFrom.consume ready more).bind fun _ _ _ _ => .bind (m := 0) .look fun _ _ _ _ => ?_
    split
    · exact .look
    · exact .fails (by simp)

theorem stringValue_takes (string : c.current.kind.stringValue? ≠ none) :
    TakesFrom 1 c (do
      match ← optionalString with
      | some s => return .string s
      | none => unexpected (some .value) : Parser Value) := by
  refine (stringToken_takes ready string).bind fun o _ _ _ => ?_
  cases o with
  | none => exact .fails (by simp)
  | some s => exact .look

/-- Values that nothing stands in are tokens themselves. -/
theorem leafValue_takes : TakesFrom 1 c (leafValue position) := by
  apply TakesFrom.peek_bind
  split
  · have variable_takes : Takes 1 variableName := (Takes.expect _).bind fun _ => .plain .name
    refine (variable_takes ready).bind fun _ _ _ _ => .bind (m := 0) .look fun _ _ _ _ => ?_
    split
    · exact .look
    · exact .fails (by simp)
  · next kind =>
    refine (TakesFrom.consume ready (by simp [kind])).bind fun _ _ _ _ =>
      .bind (m := 0) .look fun _ _ _ _ => ?_
    split
    · exact .look
    · exact .fails (by simp)
  · next kind =>
    refine (TakesFrom.consume ready (by simp [kind])).bind fun _ _ _ _ =>
      .bind (m := 0) .look fun _ _ _ _ => ?_
    split
    · exact .look
    · exact .fails (by simp)
  · next kind => exact stringValue_takes ready (by simp [kind, TokenKind.stringValue?])
  · next kind => exact stringValue_takes ready (by simp [kind, TokenKind.stringValue?])
  · next kind =>
    exact (TakesFrom.consume ready (by simp [kind])).bind fun _ _ _ _ =>
      .bind (m := 0) .look fun _ _ _ _ => .look
  · exact .fails (by simp)

end Leaves

namespace Lasts

section Values

variable {p : Rationed Value} {q : Parser Value} (values : Lasts ration 1 p q)
include values

theorem objectField : Lasts ration 1 (Parser.objectField p) (Parser.objectField q) :=
  .lift_bind .look fun _ => .lift_bind .name fun _ => .lift_bind (.plain (.expect _)) fun _ =>
    values.less.bind fun _ => .lift_bind .look fun _ => .pure _

theorem argument : Lasts ration 1 (Parser.argument p) (Parser.argument q) :=
  .lift_bind .look fun _ => .lift_bind .name fun _ => .lift_bind (.plain (.expect _)) fun _ =>
    values.less.bind fun _ => .lift_bind .look fun _ => .pure _

theorem arguments : Lasts ration 0 (Parser.arguments p) (Parser.arguments q) :=
  (argument values).optionalMany _ _

theorem directive : Lasts ration 1 (Parser.directive p) (Parser.directive q) :=
  .lift_bind .look fun _ => .lift_bind (.expect _) fun _ => .lift_bind (.plain .name) fun _ =>
    (arguments values).bind fun _ => .lift_bind .look fun _ => .pure _

theorem directives : Lasts ration 0 (Parser.directives p) (Parser.directives q) :=
  (directive values).whileAt _

theorem valueWith (position : Option ConstPosition) :
    Lasts ration 1 (Parser.valueWith position p) (Parser.valueWith position q) := by
  intro c ready fits
  apply LastsFrom.peek_bind
  have list : Lasts ration 1
      (do
        let vs ← Parser.any .openBracket .closeBracket p
        return .list (some (← spanFrom c.current.start)) vs : Rationed Value)
      (do
        let vs ← Parser.any .openBracket .closeBracket q
        return .list (some (← spanFrom c.current.start)) vs) :=
    (values.any _ _).bind fun _ => .lift_bind .look fun _ => .pure _
  have object : Lasts ration 1
      (do
        let fs ← Parser.any .openBrace .closeBrace (Parser.objectField p)
        return .object (some (← spanFrom c.current.start)) fs : Rationed Value)
      (do
        let fs ← Parser.any .openBrace .closeBrace (Parser.objectField q)
        return .object (some (← spanFrom c.current.start)) fs) :=
    ((objectField values).any _ _).bind fun _ => .lift_bind .look fun _ => .pure _
  split
  · exact list ready fits
  · exact object ready fits
  · exact .lift (leafValue_takes ready)

variable {ss : Rationed SelectionSet} {ss' : Parser SelectionSet} (selections : Lasts ration 1 ss ss')
include selections

/-- A field from its arguments on. -/
theorem fieldRest (start : Position) (aliasName : Option Name) (n : Name) :
    Lasts ration 0
      (do
        let args ← Parser.arguments p
        let ds ← Parser.directives p
        let inner ← if ← atMark .openBrace then some <$> ss else pure none
        return ⟨some (← spanFrom start), aliasName, n, args, ds, inner⟩ : Rationed Field)
      (do
        let args ← Parser.arguments q
        let ds ← Parser.directives q
        let inner ← if ← atMark .openBrace then some <$> ss' else pure none
        return ⟨some (← spanFrom start), aliasName, n, args, ds, inner⟩) := by
  refine (arguments values).bind fun _ => (directives values).bind fun _ => .lift_bind .look fun _ =>
    .ite (fun _ => ?_) fun _ => ?_
  · exact selections.map.less.bind fun _ => .lift_bind .look fun _ => .pure _
  · exact .bind (.pure none) fun _ => .lift_bind .look fun _ => .pure _

theorem field : Lasts ration 1 (Parser.field p ss) (Parser.field q ss') := by
  refine .lift_bind .look fun start => .lift_bind .name fun first =>
    .lift_bind (.plain (.accept _)) fun _ => .ite (fun _ => ?_) fun _ => ?_
  · exact .lift_bind (.plain .name) fun n => fieldRest values selections start (some first) n
  · exact fieldRest values selections start none first

/-- An inline fragment from its directives on. -/
theorem inlineRest (start : Position) (condition : Option NamedType) :
    Lasts ration 0
      (do
        let ds ← Parser.directives p
        let inner ← ss
        return .inlineFragment ⟨some (← spanFrom start), condition, ds, inner⟩ : Rationed Selection)
      (do
        let ds ← Parser.directives q
        let inner ← ss'
        return .inlineFragment ⟨some (← spanFrom start), condition, ds, inner⟩) :=
  (directives values).bind fun _ => selections.less.bind fun _ => .lift_bind .look fun _ => .pure _

theorem fragmentSelection : Lasts ration 1 (Parser.fragmentSelection p ss)
    (Parser.fragmentSelection q ss') := by
  refine .lift_bind .look fun start => .lift_bind (.expect _) fun _ => .lift_bind .look fun _ =>
    .lift_bind .look fun _ => .ite (fun _ => ?_) fun _ => .ite (fun _ => ?_) fun _ => ?_
  · exact .lift_bind (.plain .name) fun _ => (directives values).bind fun _ =>
      .lift_bind .look fun _ => .pure _
  · exact .lift_bind (.plain .consume) fun _ => .lift_map_bind (.plain .namedType) fun condition =>
      inlineRest values selections start condition
  · exact inlineRest values selections start none

theorem selection : Lasts ration 1 (Parser.selection p ss) (Parser.selection q ss') :=
  .lift_bind .look fun _ => .ite (fun _ => fragmentSelection values selections) fun _ =>
    (field values selections).map

end Values

theorem value (position : Option ConstPosition) (enough : levels < calls) :
    Lasts ⟨rounds, levels⟩ 1 (Parser.value position calls) (Parser.value position levels) := by
  induction calls generalizing levels with
  | zero => omega
  | succ calls ih =>
    cases levels with
    | zero => exact .too_deep
    | succ levels => exact .deeper ((ih (by omega)).valueWith position)

/-- The non-null mark after a type, if there is one. -/
theorem nonNullMark (start : Position) (bare : NullableType) :
    Lasts ration 0
      (do
        if ← accept .bang then return .nonNull (some (← spanFrom start)) bare
        else return .nullable bare : Rationed TypeRef)
      (do
        if ← accept .bang then return .nonNull (some (← spanFrom start)) bare
        else return .nullable bare) :=
  .lift_bind (.plain (.accept _)) fun _ =>
    .ite (fun _ => .lift_bind .look fun _ => .pure _) fun _ => .pure _

theorem typeRefWith {p : Rationed TypeRef} {q : Parser TypeRef} (element : Lasts ration 1 p q) :
    Lasts ration 1 (Parser.typeRefWith p) (Parser.typeRefWith q) := by
  refine .lift_bind .look fun start => .lift_bind (.plain (.accept _)) fun _ =>
    .ite (fun _ => ?_) fun _ => ?_
  · exact element.bind fun e => .lift_bind (.plain (.expect _)) fun _ => .lift_bind .look fun o =>
      nonNullMark start (.list (some o) e)
  · exact .lift_map_bind .namedType fun bare => nonNullMark start (.named bare)

theorem typeRef (enough : levels < calls) :
    Lasts ⟨rounds, levels⟩ 1 (Parser.typeRef calls) (Parser.typeRef levels) := by
  induction calls generalizing levels with
  | zero => omega
  | succ calls ih =>
    cases levels with
    | zero => exact typeRefWith .too_deep
    | succ levels => exact typeRefWith (.deeper (ih (by omega)))

theorem selectionSet (enough : levels < calls) :
    Lasts ⟨rounds, levels⟩ 1 (Parser.selectionSet calls) (Parser.selectionSet levels) := by
  induction calls generalizing levels with
  | zero => omega
  | succ calls ih =>
    cases levels with
    | zero => exact .too_deep
    | succ levels =>
      have inner : levels < calls := by omega
      have items := selection (value none inner) (ih inner)
      exact .deeper <| .lift_bind .look fun _ => (items.many _ _).bind fun _ => .lift_bind .look
        fun _ => .pure _

theorem interfaces : Lasts ⟨rounds, levels⟩ 0 Parser.interfaces Parser.interfaces :=
  .lift_bind (.plain (.acceptKeyword _)) fun _ =>
    .ite (fun _ => (separated (lift .namedType) _).less) fun _ => .pure []

theorem members : Lasts ⟨rounds, levels⟩ 0 Parser.members Parser.members :=
  .lift_bind (.plain (.accept _)) fun _ =>
    .ite (fun _ => (separated (lift .namedType) _).less) fun _ => .pure []

section Definitions

variable (enough : levels < calls)
include enough

theorem optionalDefault (position : ConstPosition) :
    Lasts ⟨rounds, levels⟩ 0 (Parser.optionalDefault position calls)
      (Parser.optionalDefault position levels) :=
  .lift_bind (.plain (.accept _)) fun _ => .ite (fun _ => (value _ enough).less.map) fun _ => .pure none

theorem constDirectives :
    Lasts ⟨rounds, levels⟩ 0 (Parser.constDirectives calls) (Parser.constDirectives levels) :=
  directives (value _ enough)

theorem variableDefinition : Lasts ⟨rounds, levels⟩ 1 (Parser.variableDefinition calls)
    (Parser.variableDefinition levels) :=
  .lift_bind .look fun _ => .lift_bind .variableName fun _ => .lift_bind (.plain (.expect _)) fun _ =>
    (typeRef enough).less.bind fun _ => (optionalDefault enough _).bind fun _ =>
      (constDirectives enough).bind fun _ => .lift_bind .look fun _ => .pure _

/-- An operation from its variables on. -/
theorem operationRest (start : Position) (kind : OperationKind) (n : Option Name) :
    Lasts ⟨rounds, levels⟩ 0
      (do
        let variableDefinitions ←
          Parser.optionalMany .openParen .closeParen (Parser.variableDefinition calls)
        let ds ← Parser.directives (Parser.value none calls)
        let inner ← Parser.selectionSet calls
        return ⟨some (← spanFrom start), kind, n, variableDefinitions, ds, inner⟩ :
        Rationed OperationDefinition)
      (do
        let variableDefinitions ←
          Parser.optionalMany .openParen .closeParen (Parser.variableDefinition levels)
        let ds ← Parser.directives (Parser.value none levels)
        let inner ← Parser.selectionSet levels
        return ⟨some (← spanFrom start), kind, n, variableDefinitions, ds, inner⟩) :=
  ((variableDefinition enough).optionalMany _ _).bind fun _ => (directives (value _ enough)).bind fun _ =>
    (selectionSet enough).less.bind fun _ => .lift_bind .look fun _ => .pure _

theorem operation : Lasts ⟨rounds, levels⟩ 1 (Parser.operation calls) (Parser.operation levels) := by
  refine .lift_bind .look fun start => .lift_bind .look fun _ => .ite (fun _ => ?_) fun _ =>
    .lift_bind .operationKind fun kind => .lift_bind .look fun _ => .ite (fun _ => ?_) fun _ => ?_
  · exact (selectionSet enough).bind fun _ => .lift_bind .look fun _ => .pure _
  · exact .lift_map_bind (.plain .name) fun n => operationRest enough start kind n
  · exact operationRest enough start kind none

theorem fragment : Lasts ⟨rounds, levels⟩ 1 (Parser.fragment calls) (Parser.fragment levels) :=
  .lift_bind .look fun _ => .lift_bind (.expectKeyword _) fun _ =>
    .lift_bind (.plain (.unreservedName _)) fun _ => .lift_bind (.plain (.expectKeyword _)) fun _ =>
      .lift_bind (.plain .namedType) fun _ => (directives (value _ enough)).bind fun _ =>
        (selectionSet enough).less.bind fun _ => .lift_bind .look fun _ => .pure _

theorem inputDefinition :
    Lasts ⟨rounds, levels⟩ 1 (Parser.inputDefinition calls) (Parser.inputDefinition levels) :=
  .lift_bind .look fun _ => .lift_bind (.plain .optionalString) fun _ => .lift_bind .name fun _ =>
    .lift_bind (.plain (.expect _)) fun _ => (typeRef enough).less.bind fun _ =>
      (optionalDefault enough _).bind fun _ => (constDirectives enough).bind fun _ =>
        .lift_bind .look fun _ => .pure _

theorem argumentDefinitions : Lasts ⟨rounds, levels⟩ 0 (Parser.argumentDefinitions calls)
    (Parser.argumentDefinitions levels) :=
  (inputDefinition enough).optionalMany _ _

theorem fieldDefinition :
    Lasts ⟨rounds, levels⟩ 1 (Parser.fieldDefinition calls) (Parser.fieldDefinition levels) :=
  .lift_bind .look fun _ => .lift_bind (.plain .optionalString) fun _ => .lift_bind .name fun _ =>
    (argumentDefinitions enough).bind fun _ => .lift_bind (.plain (.expect _)) fun _ =>
      (typeRef enough).less.bind fun _ => (constDirectives enough).bind fun _ =>
        .lift_bind .look fun _ => .pure _

theorem enumValueDefinition : Lasts ⟨rounds, levels⟩ 1 (Parser.enumValueDefinition calls)
    (Parser.enumValueDefinition levels) :=
  .lift_bind .look fun _ => .lift_bind (.plain .optionalString) fun _ =>
    .lift_bind (.unreservedName _) fun _ => (constDirectives enough).bind fun _ =>
      .lift_bind .look fun _ => .pure _

theorem typeBody (form : TypeForm) :
    Lasts ⟨rounds, levels⟩ 0 (Parser.typeBody calls form) (Parser.typeBody levels form) := by
  have directives : Lasts ⟨rounds, levels⟩ 0 (Parser.constDirectives calls)
      (Parser.constDirectives levels) := constDirectives enough
  have fields : Lasts ⟨rounds, levels⟩ 0 (braced (Parser.fieldDefinition calls))
      (Parser.braced (Parser.fieldDefinition levels)) := (fieldDefinition enough).optionalMany _ _
  cases form with
  | scalar => exact directives.bind fun _ => .pure _
  | object | interface =>
    exact interfaces.bind fun _ => directives.bind fun _ => fields.bind fun _ => .pure _
  | union => exact directives.bind fun _ => members.bind fun _ => .pure _
  | enum =>
    exact directives.bind fun _ => ((enumValueDefinition enough).optionalMany _ _).bind fun _ => .pure _
  | inputObject =>
    exact directives.bind fun _ => ((inputDefinition enough).optionalMany _ _).bind fun _ => .pure _

theorem typeDefinition (form : TypeForm) : Lasts ⟨rounds, levels⟩ 1 (Parser.typeDefinition calls form)
    (Parser.typeDefinition levels form) :=
  .lift_bind .look fun _ => .lift_bind (.plain .optionalString) fun _ => .lift_bind (.plain .consume)
    fun _ => .lift_bind .name fun _ => (typeBody enough form).bind fun _ =>
      .lift_bind .look fun _ => .pure _

theorem schemaDefinition :
    Lasts ⟨rounds, levels⟩ 1 (Parser.schemaDefinition calls) (Parser.schemaDefinition levels) :=
  .lift_bind .look fun _ => .lift_bind (.plain .optionalString) fun _ =>
    .lift_bind (.expectKeyword _) fun _ => (constDirectives enough).bind fun _ =>
      ((lift .rootType).many _ _).less.bind fun _ => .lift_bind .look fun _ => .pure _

theorem directiveDefinition : Lasts ⟨rounds, levels⟩ 1 (Parser.directiveDefinition calls)
    (Parser.directiveDefinition levels) :=
  .lift_bind .look fun _ => .lift_bind (.plain .optionalString) fun _ =>
    .lift_bind (.expectKeyword _) fun _ => .lift_bind (.plain (.expect _)) fun _ =>
      .lift_bind (.plain .name) fun _ => (argumentDefinitions enough).bind fun _ =>
        .lift_bind (.plain (.acceptKeyword _)) fun _ => .lift_bind (.plain (.expectKeyword _)) fun _ =>
          ((lift .directiveLocation).separated _).less.bind fun _ => .lift_bind .look fun _ => .pure _

theorem schemaExtension (start : Position) : Lasts ⟨rounds, levels⟩ 0 (Parser.schemaExtension calls start)
    (Parser.schemaExtension levels start) := by
  refine (constDirectives enough).bind fun _ => ((lift .rootType).optionalMany _ _).bind fun _ =>
    .ite (fun _ => ?_) fun _ => ?_
  · exact .lift (.fails (by simp))
  · exact .lift_bind .look fun _ => .pure _

theorem typeExtension (start : Position) (form : TypeForm) :
    Lasts ⟨rounds, levels⟩ 1 (Parser.typeExtension calls start form)
      (Parser.typeExtension levels start form) := by
  refine .lift_bind .name fun _ => (typeBody enough form).bind fun _ => .ite (fun _ => ?_) fun _ => ?_
  · exact .lift (.fails (by simp))
  · exact .lift_bind .look fun _ => .pure _

/-- The word after `extend` is there, so that `extend` is taken by itself. -/
theorem extension :
    Lasts ⟨rounds, levels⟩ 1 (Parser.extension calls) (Parser.extension levels) := by
  refine .lift_bind .look fun start => fun c ready fits => ?_
  refine (LastsFrom.lift (.lookahead ready)).bind fun next c' seen _ => ?_
  obtain ⟨rfl, ahead⟩ := lookahead_upcoming ready seen
  generalize chosen : DefinitionKeyword.ofToken? next.kind = keyword
  have taken {β : Type} {f : Token → Rationed β} {g : Token → Parser β}
      (rest : ∀ t, Lasts ⟨rounds, levels⟩ 0 (f t) (g t)) (known : keyword.isSome = true) :
      LastsFrom ⟨rounds, levels⟩ 1 c' (liftM consume >>= f) (consume >>= g) := by
    have more : next.kind ≠ .endOfInput := by
      intro at_end
      rw [← chosen, at_end] at known
      cases known
    exact (LastsFrom.lift (.consume_upcoming (ahead more))).bind fun t c'' _ reaches =>
      rest t (reaches.ready ready) (reaches.pending.length_le.trans fits)
  have other : LastsFrom ⟨rounds, levels⟩ 1 c'
      (liftM (unexpectedAt next (some .extension) : Parser Definition))
      (unexpectedAt next (some .extension)) := by
    refine .lift (.fails ?_)
    simp
  cases keyword with
  | none => exact other
  | some keyword =>
    cases keyword with
    | schema =>
      refine taken (fun _ => ?_) rfl
      exact .lift_bind (.plain .consume) fun _ => (schemaExtension enough start).map
    | type form =>
      refine taken (fun _ => ?_) rfl
      exact .lift_bind (.plain .consume) fun _ => (typeExtension enough start form).less.map
    | _ => exact other

theorem definitionAt (w : DefinitionKeyword) :
    Lasts ⟨rounds, levels⟩ 1 (Parser.definitionAt calls w) (Parser.definitionAt levels w) := by
  cases w with
  | operation k => exact (operation enough).map
  | fragment => exact (fragment enough).map
  | schema => exact (schemaDefinition enough).map
  | directive => exact (directiveDefinition enough).map
  | extend => exact extension enough
  | type form => exact (typeDefinition enough form).map

theorem definitionBy (first leading : Token) : Lasts ⟨rounds, levels⟩ 1
    (Parser.definitionBy calls first leading) (Parser.definitionBy levels first leading) := by
  refine .ite (fun _ => .lift_bind .look fun _ => .lift (.fails (by simp))) fun _ => ?_
  split
  · exact definitionAt enough _
  · exact .lift (.fails (by simp))

theorem definition :
    Lasts ⟨rounds, levels⟩ 1 (Parser.definition calls) (Parser.definition levels) :=
  .lift_bind .look fun t => .ite (fun _ => (operation enough).map) fun _ =>
    .ite (fun _ => .lift_bind .lookahead fun leading => definitionBy enough t leading)
      fun _ => .lift_bind .look fun leading => definitionBy enough t leading

theorem definitions :
    Lasts ⟨rounds, levels⟩ 0 (Parser.definitions calls) (Parser.definitions levels) :=
  Turns.repeated <| .lift_bind .look fun _ =>
    .ite (fun _ => .stop) fun _ => .item (definition enough)

theorem document : Lasts ⟨rounds, levels⟩ 1 (Parser.document calls) (Parser.document levels) :=
  (definition enough).bind fun _ => (definitions enough).bind fun _ =>
    .lift_bind .look fun _ => .pure _

omit enough in
theorem alone {p : Rationed α} {q : Parser α} (h : Lasts ⟨rounds, levels⟩ 1 p q) :
    Lasts ⟨rounds, levels⟩ 1 (Parser.alone p) (Parser.alone q) :=
  h.bind fun _ => .lift_bind (.plain .expectEnd) fun _ => .pure _

end Definitions
end Lasts
end GraphQL.Rationed
