import GraphQL.Proofs.Viable.Cuts
import GraphQL.Proofs.Viable.TypeSystem

/-! All productions of the grammar are prompt. Where one looks ahead, it goes on to consume. -/
namespace GraphQL.Parser

variable {c : Cursor}

theorem name_prompt : Prompt name := by
  intro c steady
  refine .look .peek fun t seen => ?_
  obtain ⟨rfl, -⟩ := peek_ok.mp seen
  split
  · next kind =>
    exact .consumed steady (by simp [kind]) fun _ _ _ => .look (.originOf _) fun _ _ => .pure _
  · exact .unexpected _

theorem name_takesOne (steady : c.Steady) : TakesOne c name := by
  intro n c' ran
  obtain ⟨kind, consumed, origin⟩ := name_ok steady.ready ran
  obtain ⟨steps, -⟩ := TakesOne.consume steady (by simp [kind]) consumed
  refine ⟨steps, fun t us => ⟨⟨c.source, c.limit, t, us, some cutOff, c.current.stop⟩, ?_, rfl, rfl⟩⟩
  obtain ⟨o, text⟩ := n
  simp only [steps.source, steps.lastEnd] at kind origin
  subst origin
  rw [name, peek_bind, Cursor.current_veer, kind]
  rfl

/-- A check of a name. -/
theorem checked_name {α : Type} {f : Name → Parser α} (steady : c.Steady)
    (checks : ∀ n, Prompt (f n) ∨ ∃ v : Violation, v.IsLate ∧ v.reach = 1 ∧
      f n = (do fail v (← originOf c.current))) : PromptFrom c (name >>= f) := by
  refine .checked_one steady (name_prompt steady) (name_takesOne steady) fun n c' ran => ?_
  rcases checks n with fine | ⟨v, late, single, fails⟩
  · exact .inl fun steady' => fine steady'
  · exact .inr ⟨v, late, single, fun d source _ => by rw [fails, ← source]; rfl⟩

theorem unreservedName_prompt (role : ReservingRole) : Prompt (unreservedName role) := by
  intro c steady
  refine .look .peek fun t seen => ?_
  obtain ⟨rfl, -⟩ := peek_ok.mp seen
  refine checked_name steady fun n => ?_
  by_cases reserved : n.value ∈ reservedWords role
  · exact .inr ⟨.reservedName n.value role, ⟨Nat.one_pos, by simp⟩, rfl, if_pos reserved⟩
  · rw [if_neg reserved]
    exact .inl (.pure n)

theorem variableName_prompt : Prompt variableName := (Prompt.expect _).bind fun _ => name_prompt

theorem variableName_blind (steady : c.Steady) : Blind c variableName := by
  refine .bind steady (Prompt.expect _ steady) fun t c' ran steady' =>
    (name_takesOne steady').blind

theorem variableName_covers {n : Name} {c' : Cursor} {ts : List Token} (steady : c.Steady)
    (ran : variableName c = .ok (n, c')) (steps : Consumes c ts c') :
    ts.length = 2 ∧ Origin.covering c.source ts = some ⟨c.source, c.current.start, c'.lastEnd⟩ := by
  obtain ⟨t, c₁, opened, named⟩ := bind_ok.mp ran
  obtain ⟨kind, consumed⟩ : c.current.kind = .punctuator .dollar ∧ consume c = .ok (t, c₁) := by
    simp only [expect, bind_ok, atMark_ok] at opened
    obtain ⟨_, _, ⟨rfl, rfl⟩, opened⟩ := opened
    split at opened
    · next mark => exact ⟨by simpa using mark, opened⟩
    · simp at opened
  obtain ⟨-, steps₁⟩ := consume_reads steady.ready (by simp [kind]) consumed
  obtain ⟨steps₂, -⟩ := name_takesOne (steps₁.steady steady) named
  obtain rfl := steps.unique (steps₁.trans steps₂)
  refine ⟨rfl, ?_⟩
  rw [← steps.origin (by simp), steps.source]

theorem optionalString_prompt : Prompt optionalString := by
  intro c steady
  refine .look .peek fun t seen => ?_
  obtain ⟨rfl, -⟩ := peek_ok.mp seen
  split
  · exact .pure none
  · next outcome cooked =>
    have more : c.current.kind ≠ .endOfInput := by
      intro kind
      simp [kind, TokenKind.stringValue?] at cooked
    refine .checked_one steady (.consume steady more) (.consume steady more) fun _ _ _ => ?_
    cases outcome with
    | ok value => exact .inl fun _ => .look (.originOf _) fun _ _ => .pure _
    | error fault => exact .inr ⟨.string fault, ⟨Nat.one_pos, by simp⟩, rfl,
      fun d source _ => by rw [originOf_bind, source]; rfl⟩

theorem leafValue_prompt (position : Option ConstPosition) : Prompt (leafValue position) := by
  intro c steady
  refine .look .peek fun t seen => ?_
  obtain ⟨rfl, -⟩ := peek_ok.mp seen
  split
  · refine .checked steady (variableName_prompt steady) (variableName_blind steady)
      fun n c' ts ran steps _ => ?_
    cases position with
    | none => exact .inl (.look (.spanFrom _) fun _ _ => .pure _)
    | some position =>
      obtain ⟨two, covers⟩ := variableName_covers steady ran steps
      refine .inr ⟨.variable n.value position, _, [], ts, ⟨Nat.two_pos, by simp⟩, rfl, two, covers, ?_⟩
      intro d source lastEnd
      rw [spanFrom_bind, source, lastEnd]
      rfl
  · next literal kind =>
    have more : c.current.kind ≠ .endOfInput := by simp [kind]
    refine .checked_one steady (.consume steady more) (.consume steady more) fun _ _ _ => ?_
    cases read : (Text.Decimal.ofLiteral literal.toList).toInt32? with
    | some value => exact .inl fun _ => .look (.spanFrom _) fun _ _ => .pure _
    | none =>
      refine .inr ⟨.intRange literal, ⟨Nat.one_pos, by simp⟩, rfl, ?_⟩
      intro d source lastEnd
      rw [spanFrom_bind, source, lastEnd]
      rfl
  · next literal kind =>
    have more : c.current.kind ≠ .endOfInput := by simp [kind]
    refine .checked_one steady (.consume steady more) (.consume steady more) fun _ _ _ => ?_
    cases read : (Text.Decimal.ofLiteral literal.toList).toFloat? with
    | some value => exact .inl fun _ => .look (.spanFrom _) fun _ _ => .pure _
    | none =>
      refine .inr ⟨.floatRange literal, ⟨Nat.one_pos, by simp⟩, rfl, ?_⟩
      intro d source lastEnd
      rw [spanFrom_bind, source, lastEnd]
      rfl
  · refine (optionalString_prompt.bind fun s => ?_) steady
    cases s with
    | none => exact .unexpected _
    | some s => exact .pure _
  · refine (optionalString_prompt.bind fun s => ?_) steady
    cases s with
    | none => exact .unexpected _
    | some s => exact .pure _
  · next kind =>
    exact .consumed steady (by simp [kind]) fun _ _ steady' => Prompt.spanned steady'
  · exact .unexpected _

section Values

variable {p : Parser Value} (values : Prompt p)
include values

theorem objectField_prompt : Prompt (objectField p) :=
  .look .here fun _ => name_prompt.bind fun _ => (Prompt.expect _).bind fun _ =>
    values.bind fun _ => .spanned

theorem valueWith_prompt (position : Option ConstPosition) : Prompt (valueWith position p) := by
  refine .look .peek fun t => ?_
  split
  · exact (values.any _ _).bind fun _ => .spanned
  · exact ((objectField_prompt values).any _ _).bind fun _ => .spanned
  · exact leafValue_prompt position

end Values

theorem value_prompt (position : Option ConstPosition) (levels : Nat) :
    Prompt (value position levels) := by
  induction levels with
  | zero => exact .tooDeep
  | succ levels ih => exact valueWith_prompt ih position

theorem namedType_prompt : Prompt namedType := name_prompt.bind fun _ => .pure _

theorem typeRefWith_prompt {p : Parser TypeRef} (elements : Prompt p) : Prompt (typeRefWith p) := by
  have finish {start : Position} (bare : NullableType) : Prompt (do
      if ← accept .bang then return .nonNull (some (← spanFrom start)) bare
      else return .nullable bare : Parser TypeRef) :=
    (Prompt.accept .bang).bind fun _ => .ite .spanned (.pure _)
  exact .look .here fun start => (Prompt.accept _).bind fun _ => .ite
    (elements.bind fun e => (Prompt.expect _).bind fun _ => .look (.spanFrom _) fun o =>
      (Prompt.pure _).bind finish)
    (namedType_prompt.map.bind finish)

theorem typeRef_prompt (levels : Nat) : Prompt (typeRef levels) := by
  induction levels with
  | zero => exact typeRefWith_prompt .tooDeep
  | succ levels ih => exact typeRefWith_prompt ih

section Selections

variable {p : Parser Value} (values : Prompt p) {q : Parser SelectionSet} (selections : Prompt q)
include values

theorem argument_prompt : Prompt (argument p) :=
  .look .here fun _ => name_prompt.bind fun _ => (Prompt.expect _).bind fun _ =>
    values.bind fun _ => .spanned

theorem arguments_prompt : Prompt (arguments p) := (argument_prompt values).optionalMany _ _

theorem directive_prompt : Prompt (directive p) :=
  .look .here fun _ => (Prompt.expect _).bind fun _ => name_prompt.bind fun _ =>
    (arguments_prompt values).bind fun _ => .spanned

theorem directives_prompt : Prompt (directives p) := (directive_prompt values).whileAt _

include selections

/-- A field from its arguments on. -/
theorem fieldRest_prompt (start : Position) (aliasName : Option Name) (n : Name) :
    Prompt (do
      let args ← arguments p
      let ds ← directives p
      let inner ← if ← atMark .openBrace then some <$> q else pure none
      return ⟨some (← spanFrom start), aliasName, n, args, ds, inner⟩ : Parser Field) :=
  (arguments_prompt values).bind fun _ => (directives_prompt values).bind fun _ =>
    .look (.atMark _) fun _ => .ite (selections.map.bind fun _ => .spanned)
      ((Prompt.pure none).bind fun _ => .spanned)

theorem field_prompt : Prompt (field p q) :=
  .look .here fun start => name_prompt.bind fun first => (Prompt.accept _).bind fun _ => .ite
    (name_prompt.bind fun n => (Prompt.pure (some first, n)).bind fun _ =>
      fieldRest_prompt values selections start _ _)
    ((Prompt.pure (none, first)).bind fun _ => fieldRest_prompt values selections start _ _)

/-- An inline fragment from its directives on. -/
theorem inlineRest_prompt (start : Position) (condition : Option NamedType) :
    Prompt (do
      let ds ← directives p
      let inner ← q
      return .inlineFragment ⟨some (← spanFrom start), condition, ds, inner⟩ : Parser Selection) :=
  (directives_prompt values).bind fun _ => selections.bind fun _ => .spanned

theorem fragmentSelection_prompt : Prompt (fragmentSelection p q) := by
  refine .look .here fun start => (Prompt.expect _).bind fun _ => fun c steady => ?_
  refine .look (.atKeyword "on") fun conditioned seen => .look .peek fun t _ => .ite (fun _ => ?_)
    fun _ => .ite (fun on => ?_) fun _ => ?_
  · exact (name_prompt.bind fun _ => (directives_prompt values).bind fun _ => .spanned) steady
  · have kind : c.current.kind = .name "on" := by
      simpa [on] using (atKeyword_ok.mp seen).1
    exact .consumed steady (by simp [kind]) fun _ _ steady' =>
      (namedType_prompt.map.bind fun _ => inlineRest_prompt values selections start _) steady'
  · exact ((Prompt.pure none).bind fun _ => inlineRest_prompt values selections start _) steady

theorem selection_prompt : Prompt (selection p q) :=
  .look (.atMark _) fun _ => .ite (fragmentSelection_prompt values selections)
    (field_prompt values selections).map

end Selections

theorem selectionSet_prompt (levels : Nat) : Prompt (selectionSet levels) := by
  induction levels with
  | zero => exact .tooDeep
  | succ levels ih =>
    exact .look .here fun _ => ((selection_prompt (value_prompt none levels) ih).many _ _).bind
      fun _ => .spanned

theorem operationKind_prompt : Prompt operationKind := by
  intro c steady
  refine .look .peek fun t seen => ?_
  obtain ⟨rfl, -⟩ := peek_ok.mp seen
  cases kind : c.current.kind with
  | name word =>
    cases found : OperationKind.ofKeyword? word with
    | none => simpa only [found] using PromptFrom.unexpected _
    | some k =>
      simp only [found]
      exact .consumed steady (by simp [kind]) fun _ _ _ => .pure k
  | _ => exact .unexpected _

section Parts

variable (levels : Nat)

theorem optionalDefault_prompt (position : ConstPosition) :
    Prompt (optionalDefault position levels) :=
  (Prompt.accept _).bind fun _ => .ite (value_prompt _ levels).map (.pure none)

theorem constDirectives_prompt : Prompt (constDirectives levels) :=
  directives_prompt (value_prompt _ levels)

theorem variableDefinition_prompt : Prompt (variableDefinition levels) :=
  .look .here fun _ => variableName_prompt.bind fun _ => (Prompt.expect _).bind fun _ =>
    (typeRef_prompt levels).bind fun _ => (optionalDefault_prompt levels _).bind fun _ =>
    (constDirectives_prompt levels).bind fun _ => .spanned

/-- An operation from its variables on. -/
theorem operationRest_prompt (start : Position) (kind : OperationKind) (n : Option Name) :
    Prompt (do
      let variableDefinitions ← optionalMany .openParen .closeParen (variableDefinition levels)
      let ds ← directives (value none levels)
      let inner ← selectionSet levels
      return ⟨some (← spanFrom start), kind, n, variableDefinitions, ds, inner⟩ :
      Parser OperationDefinition) :=
  ((variableDefinition_prompt levels).optionalMany _ _).bind fun _ =>
    (directives_prompt (value_prompt none levels)).bind fun _ =>
    (selectionSet_prompt levels).bind fun _ => .spanned

theorem operation_prompt : Prompt (operation levels) :=
  .look .here fun start => .look (.atMark _) fun _ => .ite
    ((selectionSet_prompt levels).bind fun _ => .spanned)
    (operationKind_prompt.bind fun kind => .look .peek fun _ => .ite
      (name_prompt.map.bind fun n => operationRest_prompt levels start kind n)
      ((Prompt.pure none).bind fun n => operationRest_prompt levels start kind n))

theorem fragment_prompt : Prompt (fragment levels) :=
  .look .here fun _ => (Prompt.expectKeyword _).bind fun _ =>
    (unreservedName_prompt _).bind fun _ => (Prompt.expectKeyword _).bind fun _ =>
    namedType_prompt.bind fun _ => (directives_prompt (value_prompt none levels)).bind fun _ =>
    (selectionSet_prompt levels).bind fun _ => .spanned

theorem interfaces_prompt : Prompt interfaces :=
  (Prompt.acceptKeyword _).bind fun _ => .ite (namedType_prompt.separated _) (.pure [])

theorem members_prompt : Prompt members :=
  (Prompt.accept _).bind fun _ => .ite (namedType_prompt.separated _) (.pure [])

theorem inputDefinition_prompt : Prompt (inputDefinition levels) :=
  .look .here fun _ => optionalString_prompt.bind fun _ => name_prompt.bind fun _ =>
    (Prompt.expect _).bind fun _ => (typeRef_prompt levels).bind fun _ =>
    (optionalDefault_prompt levels _).bind fun _ => (constDirectives_prompt levels).bind fun _ =>
    .spanned

theorem argumentDefinitions_prompt : Prompt (argumentDefinitions levels) :=
  (inputDefinition_prompt levels).optionalMany _ _

theorem fieldDefinition_prompt : Prompt (fieldDefinition levels) :=
  .look .here fun _ => optionalString_prompt.bind fun _ => name_prompt.bind fun _ =>
    (argumentDefinitions_prompt levels).bind fun _ => (Prompt.expect _).bind fun _ =>
    (typeRef_prompt levels).bind fun _ => (constDirectives_prompt levels).bind fun _ => .spanned

theorem enumValueDefinition_prompt : Prompt (enumValueDefinition levels) :=
  .look .here fun _ => optionalString_prompt.bind fun _ => (unreservedName_prompt _).bind fun _ =>
    (constDirectives_prompt levels).bind fun _ => .spanned

theorem typeBody_prompt (form : TypeForm) : Prompt (typeBody levels form) := by
  have directives := constDirectives_prompt levels
  cases form with
  | scalar => exact directives.bind fun _ => .pure _
  | object | interface =>
    exact interfaces_prompt.bind fun _ => directives.bind fun _ =>
      ((fieldDefinition_prompt levels).optionalMany _ _).bind fun _ => .pure _
  | union => exact directives.bind fun _ => members_prompt.bind fun _ => .pure _
  | enum =>
    exact directives.bind fun _ => ((enumValueDefinition_prompt levels).optionalMany _ _).bind
      fun _ => .pure _
  | inputObject =>
    exact directives.bind fun _ => ((inputDefinition_prompt levels).optionalMany _ _).bind
      fun _ => .pure _

theorem rootType_prompt : Prompt rootType :=
  .look .here fun _ => operationKind_prompt.bind fun _ => (Prompt.expect _).bind fun _ =>
    namedType_prompt.bind fun _ => .spanned

theorem schemaDefinition_prompt : Prompt (schemaDefinition levels) :=
  .look .here fun _ => optionalString_prompt.bind fun _ => (Prompt.expectKeyword _).bind fun _ =>
    (constDirectives_prompt levels).bind fun _ => (rootType_prompt.many _ _).bind fun _ => .spanned

theorem directiveLocation_prompt : Prompt directiveLocation := by
  intro c steady
  refine .look .peek fun t seen => ?_
  obtain ⟨rfl, -⟩ := peek_ok.mp seen
  refine checked_name steady fun n => ?_
  cases known : DirectiveLocation.ofName? n.value with
  | some l => exact .inl (.pure n)
  | none => exact .inr ⟨.unknownLocation n.value, ⟨Nat.one_pos, by simp⟩, rfl, rfl⟩

theorem directiveDefinition_prompt : Prompt (directiveDefinition levels) :=
  .look .here fun _ => optionalString_prompt.bind fun _ => (Prompt.expectKeyword _).bind fun _ =>
    (Prompt.expect _).bind fun _ => name_prompt.bind fun _ =>
    (argumentDefinitions_prompt levels).bind fun _ => (Prompt.acceptKeyword _).bind fun _ =>
    (Prompt.expectKeyword _).bind fun _ => (directiveLocation_prompt.separated _).bind fun _ =>
    .spanned

theorem schemaExtension_prompt (start : Position) : Prompt (schemaExtension levels start) :=
  (constDirectives_prompt levels).bind fun _ => (rootType_prompt.optionalMany _ _).bind fun _ =>
    .ite (.unexpected _) .spanned

theorem typeExtension_prompt (start : Position) (form : TypeForm) :
    Prompt (typeExtension levels start form) :=
  name_prompt.bind fun _ => (typeBody_prompt levels form).bind fun _ => .ite (.unexpected _) .spanned

theorem typeDefinition_prompt {t : Token} {form : TypeForm} (steady : c.Steady) (leads : Leads c t)
    (kind : t.kind = .name form.keyword) : PromptFrom c (typeDefinition levels form) := by
  refine .look .here fun _ _ => .bind steady (optionalString_prompt steady)
    fun o c' described steady' => ?_
  have current := leads.optionalString steady.ready described
  exact .consumed steady' (by simp [current, kind]) fun _ _ steady'' =>
    (name_prompt.bind fun _ => (typeBody_prompt levels form).bind fun _ => .spanned) steady''

end Parts

variable {levels : Nat}

/-- What starts with a token runs into a cut after the token before. -/
theorem consume_cut {α : Type} {f : Token → Parser α} :
    (consume >>= f) (c.cut 0) = .error cutOff := by
  rw [bind_result]
  rfl

theorem consume_twice_cut {α : Type} {f : Token → Token → Parser α} :
    (consume >>= fun t => consume >>= f t) (c.cut 1) = .error cutOff := by
  rw [bind_result]
  cases tokens : c.upcoming <;> simp [consume, Cursor.cut, tokens, bind_result]

/-- An extension is known by the word after the current one. -/
theorem extension_prompt (steady : c.Steady) (kind : c.current.kind = .name "extend") :
    PromptFrom c (extension levels) := by
  have more : c.current.kind ≠ .endOfInput := by simp [kind]
  refine .look .here fun start _ => .lookahead steady more fun c' steps later => ?_
  have additions {p : Parser Definition} {text : String} (word : c'.current.kind = .name text)
      (prompt : Prompt p) : PromptFrom c (consume >>= fun _ => consume >>= fun _ => p) := by
    refine .consumed steady more fun d steps' steady' => ?_
    have current := (steps'.same_current steps rfl).2
    exact .consumed steady' (by simp [current, word]) fun _ _ steady'' => prompt steady''
  have misfit {f : Token → Parser Definition} (other : f c'.current =
        unexpectedAt c'.current (some .extension)) (later : ∀ n us, 0 < n →
        (lookahead >>= f) (c.veer n us) = f c'.current (c.veer n us)) :
      PromptAt c (lookahead >>= f) (f c'.current c) := by
    have about : c'.current.origin c.source = c'.current.origin c'.source := by rw [steps.source]
    rw [other]
    exact PromptFrom.refused_ahead steps later
      ⟨id, fun _ => ⟨about, _, rfl⟩, fun _ => about, fun reach => absurd reach (Nat.lt_irrefl 0),
        by simp⟩ (fun late => absurd late.1 (Nat.lt_irrefl 0)) fun n us => by rw [other]; rfl
  have goes_on {f : Token → Parser Definition} {p : Parser Definition} {text : String}
      (word : c'.current.kind = .name text) (prompt : Prompt p)
      (two : f c'.current = (consume >>= fun _ => consume >>= fun _ => p)) (later : ∀ n us, 0 < n →
        (lookahead >>= f) (c.veer n us) = f c'.current (c.veer n us)) :
      PromptAt c (lookahead >>= f) (f c'.current c) := by
    refine PromptFrom.behind_lookahead (two ▸ additions word prompt) later (by rw [two, consume_cut]) ?_
    rintro e failed late -
    rw [two, consume_twice_cut] at failed
    cases failed
    exact absurd late.1 (Nat.lt_irrefl 0)
  obtain ⟨found, known⟩ : ∃ w, DefinitionKeyword.ofToken? c'.current.kind = w := ⟨_, rfl⟩
  cases found with
  | none => exact misfit (by simp only [known, lifted_self]) later
  | some w =>
    have word := DefinitionKeyword.ofToken?_eq_some known
    cases w with
    | schema =>
      exact goes_on word ((schemaExtension_prompt levels start).map (f := .schemaExtension))
        (by simp only [known, lifted_self]) later
    | type form =>
      exact goes_on word ((typeExtension_prompt levels start form).map (f := .typeExtension))
        (by simp only [known, lifted_self]) later
    | _ => exact misfit (by simp only [known, lifted_self]) later

/-- Something in the position of a description, and a keyword behind it. -/
theorem described_fails {α : Type} {f : Option StringValue → Token → Parser α} {p : Parser Token}
    {e : SyntaxError} (h : (do let _ ← optionalString; consume) c = .error e)
    (opens : ∀ o c', optionalString c = .ok (o, c') → p c' = consume c') :
    (do f (← optionalString) (← p) : Parser α) c = .error e := by
  rw [bind_result] at h ⊢
  rcases ran : optionalString c with e' | ⟨o, c'⟩
  · rw [ran] at h
    cases h
    rfl
  · rw [ran] at h
    simp only at h ⊢
    rw [bind_result, opens o c' ran, h]

theorem expectKeyword_at {word : String} (kind : c.current.kind = .name word) :
    expectKeyword word c = consume c := by
  have at_word : atKeyword word c = .ok (true, c) := by simp [atKeyword, kind, TokenKind.isKeyword]
  rw [expectKeyword, bind_eq at_word, if_pos rfl]

/-- Where something can be described, the description and a keyword are consumed first. -/
theorem definitionBy_fails {t₀ t : Token} {e : SyntaxError} (describable : t.kind.IsDescribable)
    (h : (do let _ ← optionalString; consume) c = .error e)
    (leads : ∀ o c', optionalString c = .ok (o, c') → c'.current.kind = t.kind) :
    definitionBy (m := Parser) levels t₀ t c = .error e := by
  have describable' := describable
  unfold TokenKind.IsDescribable at describable
  have mapped {α : Type} {p : Parser α} {f : α → Definition} (h : p c = .error e) :
      (f <$> p) c = .error e := by rw [map_eq_pure_bind, bind_result, h]
  simp only [definitionBy, lifted_self]
  rw [if_neg (by simp [describable])]
  cases known : DefinitionKeyword.ofToken? t.kind with
  | none => simp [known] at describable
  | some w =>
    have kind := DefinitionKeyword.ofToken?_eq_some known
    have keyword : ∀ o c', optionalString c = .ok (o, c') → expectKeyword w.text c' = consume c' :=
      fun o c' ran => expectKeyword_at ((leads o c' ran).trans kind)
    cases w with
    | schema =>
      apply mapped
      simp only [schemaDefinition, lifted_self]
      rw [here_bind]
      exact described_fails h keyword
    | directive =>
      apply mapped
      simp only [directiveDefinition, lifted_self]
      rw [here_bind]
      exact described_fails h keyword
    | type form =>
      apply mapped
      simp only [typeDefinition, lifted_self]
      rw [here_bind]
      exact described_fails h fun _ _ _ => rfl
    | _ => simp [known, DefinitionKeyword.isDescribable] at describable

theorem definitionBy_prompt {t : Token} (steady : c.Steady) (leads : Leads c t)
    (fitting : c.current.kind.isString = true → t.kind.IsDescribable) :
    PromptFrom c (definitionBy levels c.current t) := by
  unfold TokenKind.IsDescribable at fitting
  refine .ite (fun misplaced => ?_) fun _ => ?_
  · simp only [Bool.and_eq_true, Bool.not_eq_true'] at misplaced
    rw [fitting misplaced.1] at misplaced
    cases misplaced.2
  cases known : DefinitionKeyword.ofToken? t.kind with
  | none => exact .unexpected _
  | some w =>
    have kind := DefinitionKeyword.ofToken?_eq_some known
    cases w with
    | operation k => exact (operation_prompt levels).map steady
    | fragment => exact (fragment_prompt levels).map steady
    | schema => exact (schemaDefinition_prompt levels).map steady
    | directive => exact (directiveDefinition_prompt levels).map steady
    | extend =>
      have plain : c.current.kind.isString = false := by
        rw [← Bool.not_eq_true]
        intro string
        have := fitting string
        simp [known, DefinitionKeyword.isDescribable] at this
      exact extension_prompt steady (leads.bare plain ▸ kind)
    | type form =>
      change PromptFrom c (Definition.type <$> typeDefinition levels form)
      rw [map_eq_pure_bind]
      exact .bind steady (typeDefinition_prompt levels steady leads kind) fun _ _ _ _ => .pure _

theorem described_at_cut (string : c.current.kind.isString = true) :
    optionalString (c.cut 0) = .error cutOff := by
  have here : (c.cut 0).current = c.current := rfl
  rw [optionalString, peek_bind, here]
  cases kind : c.current.kind <;>
    simp_all [TokenKind.isString, TokenKind.stringValue?, consume_cut]

/-- A faulty string is found to be so, whatever comes after it. -/
theorem optionalString_fault {fault : Text.StringFault} {t : Token} {ts : List Token}
    (cooked : c.current.kind.stringValue? = some (.error fault)) (more : c.upcoming = t :: ts) :
    optionalString c = .error ⟨.string fault, c.current.origin c.source, []⟩ := by
  have consumed : consume c =
      .ok (c.current, { c with current := t, upcoming := ts, lastEnd := c.current.stop }) := by
    simp [consume, more]
  rw [optionalString, peek_bind, cooked]
  exact (bind_eq consumed).trans rfl

/-- A description and what comes after it are two tokens. -/
theorem described_cut {value : String} (cooked : c.current.kind.stringValue? = some (.ok value)) :
    (do let _ ← optionalString; consume) (c.cut 1) = .error cutOff := by
  have cooked' : (c.cut 1).current.kind.stringValue? = some (.ok value) := cooked
  rw [bind_result, optionalString, peek_bind, cooked']
  cases tokens : c.upcoming with
  | nil =>
    have cut : consume (c.cut 1) = .error cutOff := by simp [consume, Cursor.cut, tokens]
    simp only [bind_result, cut]
  | cons t ts =>
    have consumed : consume (c.cut 1) = .ok (c.current, ⟨c.source, c.limit, t, [], some cutOff,
        c.current.stop⟩) := by simp [consume, Cursor.cut, tokens]
    simp only [bind_eq consumed]
    rfl

/-- A faulty string in front of something that can be described is found to be so. -/
theorem definitionBy_faulty {d : Cursor} {t : Token} {fault : Text.StringFault}
    (describable : t.kind.IsDescribable)
    (cooked : d.current.kind.stringValue? = some (.error fault)) (more : d.upcoming ≠ []) :
    definitionBy (m := Parser) levels d.current t d =
      .error ⟨.string fault, d.current.origin d.source, []⟩ := by
  obtain ⟨u, us, more⟩ := List.exists_cons_of_ne_nil more
  have fails := optionalString_fault cooked more
  refine definitionBy_fails describable (by rw [bind_result, fails]) fun o d' ran => ?_
  rw [fails] at ran
  cases ran

/-- A string in front of something that cannot be described is refused without being looked at. -/
theorem definitionBy_refused {t₀ t : Token} (string : t₀.kind.isString = true)
    (other : ¬ t.kind.IsDescribable) :
    definitionBy (m := Parser) levels t₀ t c = .error ⟨.description, t₀.origin c.source, []⟩ := by
  unfold TokenKind.IsDescribable at other
  simp only [definitionBy, lifted_self]
  rw [if_pos (by simp [string, other])]
  rfl

/-- A string is a description if something describable comes after it. -/
theorem description_prompt (steady : c.Steady) (string : c.current.kind.isString = true) :
    PromptFrom c (lookahead >>= fun t => definitionBy levels c.current t) := by
  have more : c.current.kind ≠ .endOfInput := by
    intro kind
    simp [kind, TokenKind.isString] at string
  refine .lookahead steady more fun c' steps later => ?_
  have leads : Leads c c'.current := by
    refine ⟨fun _ u d ran => ?_, by simp [string]⟩
    obtain ⟨rfl, steps'⟩ := consume_reads steady.ready more ran
    exact (steps'.same_current steps rfl).2
  by_cases describable : c'.current.kind.IsDescribable
  · refine PromptFrom.behind_lookahead (definitionBy_prompt steady leads fun _ => describable)
      later ?_ fun e failed late u us => ?_
    · refine definitionBy_fails describable ?_ fun o d ran => ?_
      · rw [bind_result, described_at_cut string]
      · rw [described_at_cut string] at ran
        cases ran
    obtain ⟨outcome, cooked⟩ : ∃ outcome, c.current.kind.stringValue? = some outcome := by
      cases kind : c.current.kind <;> simp_all [TokenKind.isString, TokenKind.stringValue?]
    cases outcome with
    | ok value =>
      -- behind the description the cut is met
      rw [definitionBy_fails describable (described_cut cooked) fun o d ran => ?_] at failed
      · cases failed
        exact absurd late.1 (Nat.lt_irrefl 0)
      · obtain ⟨-, d', whole, -, -, rfl⟩ := (optionalString_prompt steady).of_cut ran
        have current : d'.current = c'.current := leads.optionalString steady.ready whole
        exact congrArg Token.kind current
    | error fault =>
      have upcoming : (c.cut 1).upcoming ≠ [] := by
        have := steps.length
        rw [← List.length_pos_iff, Cursor.cut, List.length_take]
        simp only [List.length_singleton] at this
        omega
      have here : definitionBy (m := Parser) levels c.current c'.current (c.cut 1) =
          .error ⟨.string fault, c.current.origin c.source, []⟩ :=
        definitionBy_faulty (d := c.cut 1) describable cooked upcoming
      obtain rfl := Except.error.inj (failed.symm.trans here)
      by_cases describable' : u.kind.IsDescribable
      · exact .inl <| definitionBy_faulty (d := c.veer 0 (u :: us)) describable' cooked
          (by simp [Cursor.veer])
      · exact .inr ⟨⟨fault, rfl⟩, describable', definitionBy_refused string describable'⟩
  · have refused := (definitionBy_refused string describable :
      definitionBy (m := Parser) levels c.current c'.current c = _)
    rw [refused, ← steps.source]
    refine PromptFrom.refused_ahead steps later ⟨id, fun unexpected => absurd unexpected id,
      fun none => absurd none Nat.one_ne_zero, fun _ => ⟨[], _, rfl, rfl, rfl⟩, by simp⟩
      (fun late => late.2 rfl) fun n us => ?_
    rw [steps.source]
    exact definitionBy_refused string describable

theorem definition_prompt : Prompt (definition levels) := by
  intro c steady
  refine .look .peek fun t seen => ?_
  obtain ⟨rfl, -⟩ := peek_ok.mp seen
  refine .ite (fun _ => (operation_prompt levels).map steady) fun _ => .ite (fun string => ?_)
    fun plain => .look .peek fun t seen => ?_
  · exact description_prompt steady string
  · obtain ⟨rfl, -⟩ := peek_ok.mp seen
    exact definitionBy_prompt steady ⟨by simp [plain], fun _ => rfl⟩ fun string => absurd string plain

theorem definitions_prompt : Prompt (definitions levels) :=
  .collect <| .look .peek fun _ => .ite (.pure none) (definition_prompt.bind fun _ => .pure _)

theorem document_prompt : Prompt (document levels) :=
  definition_prompt.bind fun _ => definitions_prompt.bind fun _ => .spanned

theorem alone_prompt {α : Type} {p : Parser α} (h : Prompt p) : Prompt (alone p) :=
  h.bind fun _ => Prompt.expectEnd.bind fun _ => .pure _

end GraphQL.Parser
