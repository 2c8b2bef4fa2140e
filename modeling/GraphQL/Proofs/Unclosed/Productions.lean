import GraphQL.Proofs.Unclosed.Tracking

/-! All productions of the grammar keep track of the marks that are open. -/
namespace GraphQL

namespace Setting

/-- A value may stand here: it has other values inside its marks. -/
structure TakesValue (setting : Setting) (before : List TokenKind) : Prop where
  unmarked : Unmarked before
  brace : setting.contentOf before .openBrace = some .values
  bracket : setting.contentOf before .openBracket = some .values

/-- A type may have marks of its own here. -/
def TakesType (setting : Setting) (before : List TokenKind) : Prop :=
  setting.contentOf before .openBracket = some .type

/-- Selections stand between braces here. -/
def TakesSelections (setting : Setting) : Prop :=
  ∀ before, setting.contentOf before .openBrace = some .selections

/-- Definitions stand between braces here. -/
def TakesDefinitions (setting : Setting) : Prop :=
  ∀ before, setting.contentOf before .openBrace = some .definitions

/-- Directives may be applied here: parentheses behind their names have arguments inside. -/
def TakesDirectives (setting : Setting) : Prop :=
  ∀ before, endsDirective before = true → setting.contentOf before .openParen = some .values

variable {topic : Topic} {before : List TokenKind}

theorem takesValue_values (unmarked : Unmarked before) : TakesValue ⟨topic, some .values⟩ before :=
  ⟨unmarked, rfl, rfl⟩

/-- Behind an equals sign stands a value where things are defined. -/
theorem takesValue_default {pre : List TokenKind → Prop}
    (h : Behind (.punctuator .equals) pre before) : TakesValue ⟨topic, some .definitions⟩ before := by
  have unmarked := h.unmarked (by simp)
  obtain ⟨earlier, rfl, -⟩ := h
  exact ⟨unmarked, rfl, rfl⟩

/-- Behind a colon stands a type where things are defined. -/
theorem takesType_defined {pre : List TokenKind → Prop}
    (h : Behind (.punctuator .colon) pre before) : TakesType ⟨topic, some .definitions⟩ before := by
  obtain ⟨earlier, rfl, -⟩ := h
  rfl

theorem takesSelections_selections : TakesSelections ⟨topic, some .selections⟩ := fun _ => rfl

theorem takesSelections_executable : TakesSelections ⟨.executable, none⟩ := fun _ => rfl

theorem takesDefinitions_typeSystem : TakesDefinitions ⟨.typeSystem, none⟩ := fun _ => rfl

/-- Behind a name that is no directive's, parentheses have definitions inside. -/
theorem definesBehind {setting : Setting} (h : Named Unmarked before)
    (other : setting.around ≠ some .selections) :
    setting.contentOf before .openParen = some .definitions := by
  simp [contentOf, h.not_endsDirective, other]

theorem takesDirectives {setting : Setting}
    (applied : setting.around ≠ none ∨ setting.topic ≠ .directive) : TakesDirectives setting := by
  intro before named
  have applied : (!(decide (setting.around = none) && decide (setting.topic = .directive))) = true := by
    rcases applied with h | h <;> simp [h]
  simp only [contentOf, named, applied, Bool.and_self, if_true, ite_self]

end Setting

namespace Parser

open Setting

variable {setting : Setting} {topic : Topic} {pre : List TokenKind → Prop} {c : Cursor}

theorem name_tracks : Tracks setting pre name (Named pre) := by
  intro c r silent here holds
  refine .look .peek fun t seen => ?_
  obtain ⟨rfl, -⟩ := peek_ok.mp seen
  split
  · next text kind =>
    have named : TracksFrom setting.topic c r (r.Keeps (Named pre)) consume :=
      (TracksFrom.consume_flat silent kind (by simp) rfl holds).mono
        fun _ keeps => ⟨keeps.1, text, keeps.2⟩
    exact named.goes_on silent here fun _ => .look (.originOf _) fun _ => .pure _
  · exact .unexpected _

/-- Behind a name, which starts no directive. -/
theorem name_unmarked : Tracks setting pre name Unmarked :=
  name_tracks.mono (fun _ => id) fun _ => Named.unmarked

theorem unreservedName_tracks (role : ReservingRole) :
    Tracks setting pre (unreservedName role) Unmarked :=
  .look .peek fun _ => name_unmarked.bind fun _ => .ite
    (.look (.originOf _) fun _ => .fail (by rintro ⟨_, ⟨⟩⟩)) (.pure _)

theorem variableName_tracks : Tracks setting pre variableName Unmarked :=
  (Tracks.expect rfl).bind fun _ => name_unmarked

theorem mark_tracks {m : Punctuator} (flat : m.isFlat = true) (other : m ≠ .atSign) :
    Tracks setting pre (expect m) Unmarked :=
  (Tracks.expect flat).mono (fun _ => id) fun _ h => h.unmarked (by simp [other])

theorem keyword_tracks (word : String) : Tracks setting pre (expectKeyword word) Unmarked :=
  (Tracks.expectKeyword word).mono (fun _ => id) fun _ h => h.unmarked (by simp)

theorem optionalString_tracks : Tracks setting Unmarked optionalString Unmarked := by
  intro c r silent here holds
  refine .look .peek fun t seen => ?_
  obtain ⟨rfl, -⟩ := peek_ok.mp seen
  split
  · exact .pure ⟨rfl, holds⟩
  · next outcome cooked =>
    have string : c.current.kind ≠ .endOfInput ∧ ∀ m, c.current.kind ≠ .punctuator m := by
      constructor
      all_goals
        intros
        intro kind
        simp [kind, TokenKind.stringValue?] at cooked
    refine (TracksFrom.consume_word silent string.1 string.2).goes_on silent here fun _ =>
      .look (.originOf _) fun o => ?_
    cases outcome with
    | ok value => exact .pure _
    | error fault => exact .fail (by rintro ⟨_, ⟨⟩⟩)

theorem leafValue_tracks (position : Option ConstPosition) :
    Tracks setting setting.TakesValue (leafValue position) Unmarked := by
  intro c r silent here holds
  refine .look .peek fun t seen => ?_
  obtain ⟨rfl, -⟩ := peek_ok.mp seen
  split
  · refine (variableName_tracks silent here holds).goes_on silent here fun n =>
      .look (.spanFrom _) fun o => ?_
    cases position with
    | none => exact .pure _
    | some position => exact .fail (by rintro ⟨_, ⟨⟩⟩)
  · next literal kind =>
    refine (TracksFrom.consume_word silent (by simp [kind]) (by simp [kind])).goes_on silent here
      fun _ => .look (.spanFrom _) fun _ => ?_
    cases (Text.Decimal.ofLiteral literal.toList).toInt32? with
    | some value => exact .pure _
    | none => exact .fail (by rintro ⟨_, ⟨⟩⟩)
  · next literal kind =>
    refine (TracksFrom.consume_word silent (by simp [kind]) (by simp [kind])).goes_on silent here
      fun _ => .look (.spanFrom _) fun _ => ?_
    cases (Text.Decimal.ofLiteral literal.toList).toFloat? with
    | some value => exact .pure _
    | none => exact .fail (by rintro ⟨_, ⟨⟩⟩)
  · refine (optionalString_tracks silent here holds.unmarked).goes_on silent here fun s => ?_
    cases s with
    | none => exact .unexpected _
    | some s => exact .pure _
  · refine (optionalString_tracks silent here holds.unmarked).goes_on silent here fun s => ?_
    cases s with
    | none => exact .unexpected _
    | some s => exact .pure _
  · next kind =>
    exact (TracksFrom.consume_word silent (by simp [kind]) (by simp [kind])).goes_on silent here
      fun _ => .spanned
  · exact .unexpected _

section Values

variable {const : Bool} {levels : Nat} {p : Parser Value}
  (values : ∀ topic, Tracks ⟨topic, some .values⟩ Unmarked p Unmarked)
  (reads : Reads const levels p (·.spelling) fun v => [v.tree])
include values

theorem objectField_tracks : Tracks ⟨topic, some .values⟩ Unmarked (objectField p) Unmarked :=
  .look .here fun _ => name_unmarked.bind fun _ => (mark_tracks rfl (by simp)).bind fun _ =>
    (values topic).bind fun _ => .spanned

include reads

theorem valueWith_tracks (position : Option ConstPosition) :
    Tracks setting setting.TakesValue (valueWith position p) Unmarked := by
  refine .look .peek fun t => ?_
  split
  · have list : Tracks setting setting.TakesValue (any .openBracket .closeBracket p) Unmarked :=
      .any (values _) reads.advances rfl (fun _ => TakesValue.bracket) (by simp)
    exact list.bind fun _ => .spanned
  · have object : Tracks setting setting.TakesValue (any .openBrace .closeBrace (objectField p))
        Unmarked :=
      .any (objectField_tracks values) (objectField_reads reads).advances rfl
        (fun _ => TakesValue.brace) (by simp)
    exact object.bind fun _ => .spanned
  · exact leafValue_tracks position

end Values

theorem value_tracks (position : Option ConstPosition) (levels : Nat) (setting : Setting) :
    Tracks setting setting.TakesValue (value position levels) Unmarked := by
  induction levels generalizing setting with
  | zero => exact .tooDeep
  | succ levels ih =>
    exact valueWith_tracks (fun topic => (ih _).mono (fun _ => takesValue_values) fun _ => id)
      (value_reads position levels) position

/-- A value between other values. -/
theorem value_inside (position : Option ConstPosition) (levels : Nat) (topic : Topic) :
    Tracks ⟨topic, some .values⟩ Unmarked (value position levels) Unmarked :=
  (value_tracks position levels _).mono (fun _ => takesValue_values) fun _ => id

theorem namedType_tracks : Tracks setting pre namedType Unmarked :=
  name_unmarked.bind fun _ => .pure _

/-- Elements stand inside a bracket that errors do not tell of. -/
theorem typeRefWith_tracks {p : Parser TypeRef}
    (elements : ∀ topic, Tracks ⟨topic, some .type⟩ Unmarked p Unmarked) :
    Tracks setting setting.TakesType (typeRefWith p) Unmarked := by
  have finish (start : Position) (bare : NullableType) : Tracks setting Unmarked (do
      if ← accept .bang then return .nonNull (some (← spanFrom start)) bare
      else return .nullable bare : Parser TypeRef) Unmarked :=
    .accept rfl (Tracks.spanned.mono (fun _ => id) fun _ h => h.unmarked (by simp)) (.pure _)
  have inside : Shuts setting.topic .openBracket .type (do
      let e ← p
      let _ ← expect .closeBracket
      return e) := .after (elements _) fun e _ _ _ _ silent opened unmarked =>
    (Shuts.expect rfl silent opened unmarked).returns
  refine .look .here fun start => ?_
  intro c r silent here holds
  unfold TracksFrom
  simp only [lifted_self]
  by_cases kind : c.current.kind = .punctuator .openBracket
  · rw [accept_at kind]
    have list := (Tracks.bracketedType inside fun _ => id).bind fun e => Tracks.look
      (.spanFrom start) fun o => (Tracks.pure (NullableType.list (some o) e)).bind (finish start)
    have read := list silent here holds
    unfold TracksFrom at read
    simp only [bind_assoc, pure_bind, if_true] at read ⊢
    exact read
  · rw [accept_other kind]
    exact (namedType_tracks.map.bind (finish start)) silent here holds

theorem typeRef_tracks (levels : Nat) (setting : Setting) :
    Tracks setting setting.TakesType (typeRef levels) Unmarked := by
  induction levels generalizing setting with
  | zero => exact typeRefWith_tracks fun _ => .tooDeep
  | succ levels ih => exact typeRefWith_tracks fun topic => (ih _).mono (fun _ _ => rfl) fun _ => id

section Selections

variable {const : Bool} {levels : Nat} {p : Parser Value}
  (values : ∀ topic, Tracks ⟨topic, some .values⟩ Unmarked p Unmarked)
  (reads : Reads const levels p (·.spelling) fun v => [v.tree])
include values

theorem argument_tracks : Tracks ⟨topic, some .values⟩ Unmarked (argument p) Unmarked :=
  .look .here fun _ => name_unmarked.bind fun _ => (mark_tracks rfl (by simp)).bind fun _ =>
    (values topic).bind fun _ => .spanned

include reads

theorem arguments_tracks (opens : ∀ b, pre b → setting.contentOf b .openParen = some .values)
    (unmarked : ∀ b, pre b → Unmarked b) : Tracks setting pre (arguments p) Unmarked :=
  .optionalMany (argument_tracks values) (argument_reads reads).advances rfl opens (by simp) unmarked

/-- The name of a directive tells that there are arguments behind it. -/
theorem directive_tracks (applied : setting.TakesDirectives) :
    Tracks setting Unmarked (directive p) Unmarked :=
  .look .here fun _ => (Tracks.expect rfl).bind fun _ => name_tracks.bind fun _ =>
    (arguments_tracks values reads (fun _ h => applied _ h.endsDirective) fun _ => Named.unmarked).bind
      fun _ => .spanned

theorem directives_tracks (applied : setting.TakesDirectives) :
    Tracks setting Unmarked (directives p) Unmarked :=
  .whileAt (directive_tracks values reads applied)

variable {q : Parser SelectionSet}
  (selections : ∀ topic, Tracks ⟨topic, some .selections⟩ Unmarked q Unmarked)
include selections

/-- A field from its arguments on. -/
theorem fieldRest_tracks (start : Position) (aliasName : Option Name) (n : Name) :
    Tracks ⟨topic, some .selections⟩ Unmarked (do
      let args ← arguments p
      let ds ← directives p
      let inner ← if ← atMark .openBrace then some <$> q else pure none
      return ⟨some (← spanFrom start), aliasName, n, args, ds, inner⟩ : Parser Field) Unmarked :=
  (arguments_tracks values reads (fun _ _ => rfl) fun _ => id).bind fun _ =>
    (directives_tracks values reads (takesDirectives (.inl (by simp)))).bind fun _ =>
    .look (.atMark _) fun _ => .ite ((selections topic).map.bind fun _ => .spanned)
      ((Tracks.pure none).bind fun _ => .spanned)

theorem field_tracks : Tracks ⟨topic, some .selections⟩ Unmarked (field p q) Unmarked :=
  .look .here fun start => name_unmarked.bind fun first => .accept rfl
    (name_unmarked.bind fun n => (Tracks.pure (some first, n)).bind fun _ =>
      fieldRest_tracks values reads selections start _ _)
    ((Tracks.pure (none, first)).bind fun _ => fieldRest_tracks values reads selections start _ _)

/-- An inline fragment from its directives on. -/
theorem inlineRest_tracks (start : Position) (condition : Option NamedType) :
    Tracks ⟨topic, some .selections⟩ Unmarked (do
      let ds ← directives p
      let inner ← q
      return .inlineFragment ⟨some (← spanFrom start), condition, ds, inner⟩ : Parser Selection)
      Unmarked :=
  (directives_tracks values reads (takesDirectives (.inl (by simp)))).bind fun _ =>
    (selections topic).bind fun _ => .spanned

theorem fragmentSelection_tracks :
    Tracks ⟨topic, some .selections⟩ Unmarked (fragmentSelection p q) Unmarked := by
  refine .look .here fun start => (mark_tracks rfl (by simp)).bind fun _ => ?_
  intro c r silent here holds
  refine .look (.atKeyword "on") fun conditioned seen => .look .peek fun t _ => .ite (fun _ => ?_)
    fun _ => .ite (fun on => ?_) fun _ => ?_
  · exact (name_unmarked.bind fun _ => (directives_tracks values reads
      (takesDirectives (.inl (by simp)))).bind fun _ => .spanned) silent here holds
  · have kind : c.current.kind = .name "on" := by
      simpa [on] using (atKeyword_ok.mp seen).1
    exact (TracksFrom.consume_word silent (by simp [kind]) (by simp [kind])).goes_on silent here
      fun _ => namedType_tracks.map.bind fun _ => inlineRest_tracks values reads selections start _
  · exact ((Tracks.pure none).bind fun _ => inlineRest_tracks values reads selections start _)
      silent here holds

theorem selection_tracks : Tracks ⟨topic, some .selections⟩ Unmarked (selection p q) Unmarked :=
  .look (.atMark _) fun _ => .ite (fragmentSelection_tracks values reads selections)
    (field_tracks values reads selections).map

end Selections

theorem selectionSet_tracks (levels : Nat) (setting : Setting) (braces : setting.TakesSelections) :
    Tracks setting Unmarked (selectionSet levels) Unmarked := by
  induction levels generalizing setting with
  | zero => exact .tooDeep
  | succ levels ih =>
    have items : Tracks ⟨setting.topic, some .selections⟩ Unmarked
        (selection (value none levels) (selectionSet levels)) Unmarked :=
      selection_tracks (value_inside none levels) (value_reads none levels)
        fun topic => ih _ takesSelections_selections
    have advances := (selection_reads (value_reads none levels) (selectionSet_reads levels)).advances
    exact .look .here fun _ => (Tracks.many items advances rfl (fun b _ => braces b) (by simp)).bind
      fun _ => .spanned

theorem operationKind_tracks : Tracks setting pre operationKind (Named pre) := by
  intro c r silent here holds
  refine .look .peek fun t seen => ?_
  obtain ⟨rfl, -⟩ := peek_ok.mp seen
  cases kind : c.current.kind with
  | name word =>
    cases found : OperationKind.ofKeyword? word with
    | none => simpa only [found] using TracksFrom.unexpected _
    | some k =>
      simp only [found]
      have named : TracksFrom setting.topic c r (r.Keeps (Named pre)) consume :=
        (TracksFrom.consume_flat silent kind (by simp) rfl holds).mono
          fun _ keeps => ⟨keeps.1, word, keeps.2⟩
      exact named.returns
  | _ => exact .unexpected _

section Parts

variable (levels : Nat)

theorem optionalDefault_tracks (position : ConstPosition) :
    Tracks ⟨topic, some .definitions⟩ Unmarked (optionalDefault position levels) Unmarked :=
  .accept rfl ((value_tracks _ levels _).mono (fun _ => takesValue_default) fun _ => id).map (.pure none)

theorem constDirectives_tracks (applied : setting.TakesDirectives) :
    Tracks setting Unmarked (constDirectives levels) Unmarked :=
  directives_tracks (value_inside _ levels) (value_reads _ levels) applied

/-- Directives of things that are defined. -/
theorem definedDirectives_tracks :
    Tracks ⟨topic, some .definitions⟩ Unmarked (constDirectives levels) Unmarked :=
  constDirectives_tracks levels (takesDirectives (.inl (by simp)))

/-- The type of something that is defined stands behind a colon. -/
theorem definedType_tracks :
    Tracks ⟨topic, some .definitions⟩ (Behind (.punctuator .colon) pre) (typeRef levels) Unmarked :=
  (typeRef_tracks levels _).mono (fun _ => takesType_defined) fun _ => id

theorem variableDefinition_tracks :
    Tracks ⟨topic, some .definitions⟩ Unmarked (variableDefinition levels) Unmarked :=
  .look .here fun _ => variableName_tracks.bind fun _ => (Tracks.expect rfl).bind fun _ =>
    (definedType_tracks levels).bind fun _ => (optionalDefault_tracks levels _).bind fun _ =>
    (definedDirectives_tracks levels).bind fun _ => .spanned

/-- Directives behind the name of a definition. -/
theorem appliedDirectives_tracks :
    Tracks ⟨.typeSystem, none⟩ Unmarked (constDirectives levels) Unmarked :=
  constDirectives_tracks levels (takesDirectives (.inr (by simp)))

/-- Directives of executable definitions. -/
theorem executableDirectives_tracks :
    Tracks ⟨.executable, none⟩ Unmarked (directives (value none levels)) Unmarked :=
  directives_tracks (value_inside none levels) (value_reads none levels)
    (takesDirectives (.inr (by simp)))

/-- An operation from its variables on. -/
theorem operationRest_tracks (start : Position) (kind : OperationKind) (n : Option Name) :
    Tracks ⟨.executable, none⟩ (Named Unmarked) (do
      let variableDefinitions ← optionalMany .openParen .closeParen (variableDefinition levels)
      let ds ← directives (value none levels)
      let inner ← selectionSet levels
      return ⟨some (← spanFrom start), kind, n, variableDefinitions, ds, inner⟩ :
      Parser OperationDefinition) Unmarked := by
  have declared : Tracks ⟨.executable, none⟩ (Named Unmarked)
      (optionalMany .openParen .closeParen (variableDefinition levels)) Unmarked :=
    .optionalMany (variableDefinition_tracks levels) variableDefinition_reads.advances rfl
      (fun _ named => definesBehind named (by simp)) (by simp) fun _ => Named.unmarked
  exact declared.bind fun _ => (executableDirectives_tracks levels).bind fun _ =>
    (selectionSet_tracks levels _ takesSelections_executable).bind fun _ => .spanned

theorem operation_tracks : Tracks ⟨.executable, none⟩ Unmarked (operation levels) Unmarked := by
  have named : Tracks ⟨.executable, none⟩ (Named Unmarked) name (Named Unmarked) :=
    name_tracks.mono (fun _ => Named.unmarked) fun _ => id
  exact .look .here fun start => .look (.atMark _) fun _ => .ite
    ((selectionSet_tracks levels _ takesSelections_executable).bind fun _ => .spanned)
    (operationKind_tracks.bind fun kind => .look .peek fun _ => .ite
      (named.map.bind fun n => operationRest_tracks levels start kind n)
      ((Tracks.pure none).bind fun n => operationRest_tracks levels start kind n))

theorem fragment_tracks : Tracks ⟨.executable, none⟩ Unmarked (fragment levels) Unmarked :=
  .look .here fun _ => (Tracks.expectKeyword _).bind fun _ =>
    (unreservedName_tracks _).bind fun _ => (Tracks.expectKeyword _).bind fun _ =>
    namedType_tracks.bind fun _ => (executableDirectives_tracks levels).bind fun _ =>
    (selectionSet_tracks levels _ takesSelections_executable).bind fun _ => .spanned

theorem interfaces_tracks : Tracks setting Unmarked interfaces Unmarked :=
  .acceptKeyword ((Tracks.separated rfl fun _ => namedType_tracks).mono
    (fun _ h => h.unmarked (by simp)) fun _ => id) (.pure [])

theorem members_tracks : Tracks setting Unmarked members Unmarked :=
  .accept rfl ((Tracks.separated rfl fun _ => namedType_tracks).mono
    (fun _ h => h.unmarked (by simp)) fun _ => id) (.pure [])

theorem inputDefinition_tracks :
    Tracks ⟨topic, some .definitions⟩ Unmarked (inputDefinition levels) Unmarked :=
  .look .here fun _ => optionalString_tracks.bind fun _ => name_unmarked.bind fun _ =>
    (Tracks.expect rfl).bind fun _ => (definedType_tracks levels).bind fun _ =>
    (optionalDefault_tracks levels _).bind fun _ => (definedDirectives_tracks levels).bind fun _ =>
    .spanned

theorem argumentDefinitions_tracks
    (opens : ∀ b, pre b → setting.contentOf b .openParen = some .definitions)
    (unmarked : ∀ b, pre b → Unmarked b) :
    Tracks setting pre (argumentDefinitions (levels + 1)) Unmarked :=
  .optionalMany (inputDefinition_tracks _) inputDefinition_reads.advances rfl opens (by simp) unmarked

theorem fieldDefinition_tracks :
    Tracks ⟨topic, some .definitions⟩ Unmarked (fieldDefinition (levels + 1)) Unmarked :=
  .look .here fun _ => optionalString_tracks.bind fun _ => name_tracks.bind fun _ =>
    (argumentDefinitions_tracks levels (fun _ named => definesBehind named (by simp))
      fun _ => Named.unmarked).bind fun _ => (Tracks.expect rfl).bind fun _ =>
    (definedType_tracks _).bind fun _ => (definedDirectives_tracks _).bind fun _ => .spanned

theorem enumValueDefinition_tracks :
    Tracks ⟨topic, some .definitions⟩ Unmarked (enumValueDefinition levels) Unmarked :=
  .look .here fun _ => optionalString_tracks.bind fun _ => (unreservedName_tracks _).bind fun _ =>
    (definedDirectives_tracks levels).bind fun _ => .spanned

/-- The body of a definition. -/
theorem braced_tracks {α : Type} {item : Parser α}
    (items : Tracks ⟨.typeSystem, some .definitions⟩ Unmarked item Unmarked)
    (advances : Advances item) : Tracks ⟨.typeSystem, none⟩ Unmarked (braced item) Unmarked :=
  .optionalMany items advances rfl (fun b _ => takesDefinitions_typeSystem b) (by simp) fun _ => id

theorem typeBody_tracks (form : TypeForm) :
    Tracks ⟨.typeSystem, none⟩ Unmarked (typeBody (levels + 1) form) Unmarked := by
  have directives := appliedDirectives_tracks (levels + 1)
  cases form with
  | scalar => exact directives.bind fun _ => .pure _
  | object | interface =>
    exact interfaces_tracks.bind fun _ => directives.bind fun _ =>
      (braced_tracks (fieldDefinition_tracks levels) fieldDefinition_reads.advances).bind fun _ =>
      .pure _
  | union => exact directives.bind fun _ => members_tracks.bind fun _ => .pure _
  | enum =>
    exact directives.bind fun _ => (braced_tracks (enumValueDefinition_tracks _)
      enumValueDefinition_reads.advances).bind fun _ => .pure _
  | inputObject =>
    exact directives.bind fun _ =>
      (braced_tracks (inputDefinition_tracks _) inputDefinition_reads.advances).bind fun _ => .pure _

theorem rootType_tracks : Tracks setting pre rootType Unmarked :=
  .look .here fun _ => operationKind_tracks.bind fun _ => (Tracks.expect rfl).bind fun _ =>
    namedType_tracks.bind fun _ => .spanned

theorem rootType_advances : Advances rootType :=
  have reads : Reads true 0 rootType (·.spelling) fun t => [t.tree] := rootType_reads
  reads.advances

theorem schemaDefinition_tracks :
    Tracks ⟨.typeSystem, none⟩ Unmarked (schemaDefinition levels) Unmarked := by
  have roots : Tracks ⟨.typeSystem, none⟩ Unmarked (many .openBrace .closeBrace rootType) Unmarked :=
    .many rootType_tracks rootType_advances rfl (fun b _ => takesDefinitions_typeSystem b) (by simp)
  exact .look .here fun _ => optionalString_tracks.bind fun _ => (keyword_tracks _).bind fun _ =>
    (appliedDirectives_tracks levels).bind fun _ => roots.bind fun _ => .spanned

theorem directiveLocation_tracks : Tracks setting pre directiveLocation Unmarked := by
  refine .look .peek fun t => name_unmarked.bind fun n => ?_
  cases DirectiveLocation.ofName? n.value with
  | some l => exact .pure n
  | none => exact .look (.originOf t) fun _ => .fail (by rintro ⟨_, ⟨⟩⟩)

theorem directiveDefinition_tracks :
    Tracks ⟨.directive, none⟩ Unmarked (directiveDefinition (levels + 1)) Unmarked := by
  have locations : ∀ pre, Tracks ⟨.directive, none⟩ pre directiveLocation Unmarked :=
    fun _ => directiveLocation_tracks
  -- the name comes behind a mark, as those of directives that are applied do
  refine .look .here fun _ => optionalString_tracks.bind fun _ => (keyword_tracks _).bind fun _ =>
    (Tracks.expect rfl).bind fun _ => name_unmarked.bind fun _ =>
    (argumentDefinitions_tracks levels (fun _ _ => by simp [contentOf]) fun _ => id).bind fun _ => ?_
  exact .acceptKeyword
    ((keyword_tracks _).bind fun _ => (Tracks.separated rfl locations).bind fun _ => .spanned)
    ((keyword_tracks _).bind fun _ => (Tracks.separated rfl locations).bind fun _ => .spanned)

theorem schemaExtension_tracks (start : Position) :
    Tracks ⟨.typeSystem, none⟩ Unmarked (schemaExtension levels start) Unmarked :=
  (appliedDirectives_tracks levels).bind fun _ => (braced_tracks rootType_tracks rootType_advances).bind
    fun _ => .ite (.unexpected _) .spanned

theorem typeExtension_tracks (start : Position) (form : TypeForm) :
    Tracks ⟨.typeSystem, none⟩ pre (typeExtension (levels + 1) start form) Unmarked :=
  name_unmarked.bind fun _ => (typeBody_tracks levels form).bind fun _ => .ite (.unexpected _) .spanned

end Parts

end Parser
end GraphQL
