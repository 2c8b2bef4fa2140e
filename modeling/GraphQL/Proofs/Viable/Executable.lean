import GraphQL.Parser.Executable
import GraphQL.Proofs.Viable.Values

/-! The parsers of directives, selections, operations and fragments are viable. -/
namespace GraphQL.Parser

open Spelling Computability

variable {ok : Condition} {const : Bool} {levels : Nat} {c : Cursor}

theorem clear_nil (room : 0 < levels) : Clear const levels [] [] := ⟨by simpa using room, by simp⟩

/-- Arguments with legal trees. -/
abbrev Arguments (const : Bool) (levels : Nat) : Spelling :=
  Legally const levels (block .openParen .closeParen Argument.spelling) (·.map (·.tree))

/-- Directives with legal trees. -/
abbrev Directives (const : Bool) (levels : Nat) : Spelling :=
  Legally const levels (row Directive.spelling) (·.map (·.tree))

theorem completes_directives : Completes (Directives const levels) [] :=
  ⟨[], ⟨[], rfl, .nil⟩, by simp⟩

/-- What arguments can count on in front of which a condition holds. -/
structure AllowsArguments (ok : Condition) (const : Bool) (levels : Nat) : Prop where
  parens : Between ok (Clear const levels) .openParen .closeParen
  room : ∀ ⦃ks opened⦄, ok ks opened → 0 < levels

theorem allowsArguments_clear : AllowsArguments (Clear const levels) const levels where
  parens := .parens
  room _ _ holds := Nat.zero_lt_of_lt holds.1

section Values

variable {p : Parser Value} (values : Viable (Clear const levels) p (Values const levels))
include values

theorem argument_viable :
    Viable (Clear const levels) (argument p)
      (Legally const levels Argument.spelling fun a => [a.tree]) := by
  refine Viable.sub (.look .here fun _ => (name_viable const levels).bind fun _ =>
    (Viable.expect rfl).bind fun _ => values.ends fun _ => .spanned) ?_
  rintro ks ⟨_, ⟨n, named, legal_n⟩, _, ⟨_, colon, _, ⟨v, valued, legal_v⟩, rfl⟩, rfl⟩
  refine ⟨⟨none, n, v⟩, ?_, (Node.argument ⟨none, n, v⟩).legal_flat rfl rfl trivial
    (legal_n.append legal_v)⟩
  rw [Argument.spelling, mul_assoc]
  exact Language.append_mem_mul named (Language.append_mem_mul colon valued)

variable (allows : AllowsArguments ok const levels)
include allows

theorem arguments_viable : Viable ok (arguments p) (Arguments const levels) := by
  refine (optionalMany_viable (argument_viable values) allows.parens
    (nil_notMem_legally .argument (fun _ => rfl) fun _ => rfl) fun ks opened holds => ?_).sub
      fun _ => legally_block
  exact (argument_viable values).blank (clear_nil (allows.room holds))

variable [ok.TailClosed]

theorem directive_viable :
    Viable ok (directive p) (Legally const levels Directive.spelling fun d => [d.tree]) := by
  refine Viable.sub (.look .here fun _ => (Viable.expect rfl).bind fun _ =>
    (name_viable const levels).bind fun _ => (arguments_viable values allows).ends fun _ =>
    .spanned) ?_
  rintro ks ⟨_, at_sign, _, ⟨_, ⟨n, named, legal_n⟩, _, ⟨as, given, legal_as⟩, rfl⟩, rfl⟩
  refine ⟨⟨none, n, as⟩, ?_, (Node.directive ⟨none, n, as⟩).legal_flat rfl rfl trivial
    (legal_n.append legal_as)⟩
  rw [Directive.spelling, mul_assoc]
  exact Language.append_mem_mul at_sign (Language.append_mem_mul named given)

theorem directives_viable : Viable ok (directives p) (Directives const levels) :=
  (whileAt_viable (directive_viable values allows) .atSign
    (nil_notMem_legally .directive (fun _ => rfl) fun _ => rfl)).sub fun _ => legally_row

end Values

section Selections

/-- Selection sets with legal trees. -/
abbrev SelectionSets (levels : Nat) : Spelling :=
  Legally false levels SelectionSet.spelling fun s => [s.tree]

/-- Selections with legal trees. -/
abbrev Selections (levels : Nat) : Spelling :=
  Legally false levels Selection.spelling fun s => [s.tree]

/-- What stands after the name of a field, with legal trees. -/
abbrev FieldRests (levels : Nat) : Spelling :=
  Arguments false levels * (Directives false levels * (SelectionSets levels + 1))

abbrev Fields (levels : Nat) : Spelling := Legally false levels Field.spelling fun f => [f.tree]

theorem fields_of_rest (aliasName : Option Name) {n : Name} {front rest : List TokenKind}
    (named : front ∈ maybe (fun n : Name => n.spelling * mark .colon) aliasName * n.spelling)
    (legal : AllLegal false levels (aliasName.toList.map (·.tree) ++ [n.tree]))
    (h : rest ∈ FieldRests levels) : front ++ rest ∈ Fields levels := by
  obtain ⟨_, ⟨as, given, legal_as⟩, _, ⟨_, ⟨ds, applied, legal_ds⟩, _, inner, rfl⟩, rfl⟩ := h
  obtain ⟨s, selected, legal_s⟩ := legally_maybe inner
  have below : AllLegal false levels (SelectionSet.optionalTree s) := by
    cases s with
    | none => exact .nil
    | some s => exact legal_s
  refine ⟨⟨none, aliasName, n, as, ds, s⟩, ?_,
    (Node.field ⟨none, aliasName, n, as, ds, s⟩).legal_flat (by simp [Node.tree, Field.tree]) rfl
      trivial (((legal.append legal_as).append legal_ds).append below)⟩
  rw [Field.spelling_eq, mul_assoc, mul_assoc]
  exact Language.append_mem_mul named
    (Language.append_mem_mul given (Language.append_mem_mul applied selected))

/-- What stands after the condition of an inline fragment, with legal trees. -/
abbrev InlineRests (levels : Nat) : Spelling := Directives false levels * SelectionSets levels

theorem inlineFragments_of_rest (condition : Option NamedType) {front rest : List TokenKind}
    (conditioned : front ∈ mark .ellipsis *
      maybe (fun t : NamedType => keyword "on" * t.spelling) condition)
    (legal : AllLegal false levels (condition.toList.map (·.tree)))
    (h : rest ∈ InlineRests levels) : front ++ rest ∈ Selections levels := by
  obtain ⟨_, ⟨ds, applied, legal_ds⟩, _, ⟨s, selected, legal_s⟩, rfl⟩ := h
  refine ⟨.inlineFragment ⟨none, condition, ds, s⟩, ?_,
    (Node.inlineFragment ⟨none, condition, ds, s⟩).legal_flat
      (by simp [Node.tree, InlineFragment.tree]) rfl trivial
      ((legal.append legal_ds).append legal_s)⟩
  rw [Selection.spelling, InlineFragment.spelling_eq, mul_assoc]
  exact Language.append_mem_mul conditioned (Language.append_mem_mul applied selected)

variable {p : Parser Value} (values : Viable (Clear false levels) p (Values false levels))
  {q : Parser SelectionSet} (selections : Viable (Clear false levels) q (SelectionSets levels))
include values selections

/-- A field from its arguments on. -/
theorem fieldRest_viable {start : Position} {aliasName : Option Name} {n : Name} :
    Viable (Clear false levels) (do
      let args ← arguments p
      let ds ← directives p
      let inner ← if ← atMark .openBrace then some <$> q else pure none
      return ⟨some (← spanFrom start), aliasName, n, args, ds, inner⟩ : Parser Field)
      (FieldRests levels) :=
  (arguments_viable values allowsArguments_clear).bind fun _ =>
    (directives_viable values allowsArguments_clear).bind fun _ =>
    .look (.atMark _) fun _ => .ite (selections.map.ends fun _ => .spanned)
      ((Viable.pure none).ends fun _ => .spanned)

theorem field_viable : Viable (Clear false levels) (field p q) (Fields levels) := by
  refine Viable.sub (A := Names false levels *
    (mark .colon * (Names false levels * FieldRests levels) + FieldRests levels))
    (.look .here fun _ => (name_viable false levels).bind fun _ =>
      .accept rfl ((name_viable false levels).bind fun _ => ?_)
        (fieldRest_viable values selections)
        fun _ _ holds => Condition.TailClosed.tail holds) ?_
  · rw [pure_bind]
    exact fieldRest_viable values selections
  rintro ks ⟨_, ⟨a, first, legal_a⟩, _,
    ⟨_, colon, _, ⟨_, ⟨n, named, legal_n⟩, rest, h, rfl⟩, rfl⟩ | h, rfl⟩
  · have field := fields_of_rest (some a)
      (Language.append_mem_mul (Language.append_mem_mul first colon) named) (legal_a.append legal_n) h
    simpa using field
  · exact fields_of_rest none (by simpa [maybe] using first) legal_a h

/-- What comes after the dots: the name of a fragment, or an inline fragment. -/
abbrev FragmentRests (levels : Nat) : Spelling :=
  NamesThat (·.value ≠ "on") false levels * Directives false levels +
    (keyword "on" * (NamedTypes false levels * InlineRests levels) + InlineRests levels)

/-- An inline fragment from its directives on. -/
theorem inlineRest_viable {start : Position} {condition : Option NamedType} :
    Viable (Clear false levels) (do
      let ds ← directives p
      let inner ← q
      return .inlineFragment ⟨some (← spanFrom start), condition, ds, inner⟩ : Parser Selection)
      (InlineRests levels) :=
  (directives_viable values allowsArguments_clear).bind fun _ => selections.ends fun _ => .spanned

/-- What comes after the dots is the name of a fragment, unless it is the word for a condition. -/
theorem fragmentRest_viable {start : Position} :
    Viable (Clear false levels) (do
      let conditioned ← atKeyword "on"
      let t ← peek
      if !conditioned && t.kind.isName then
        let n ← name
        let ds ← directives p
        return .spread ⟨some (← spanFrom start), n, ds⟩
      else
        let condition ← if conditioned then do
            let _ ← consume
            some <$> namedType
          else pure none
        let ds ← directives p
        let inner ← q
        return .inlineFragment ⟨some (← spanFrom start), condition, ds, inner⟩ : Parser Selection)
      (FragmentRests levels) where
  run c whole := by
    rw [atKeyword_bind, peek_bind]
    split
    · next spread =>
      obtain ⟨other, is_name⟩ := (Bool.and_eq_true _ _).mp spread
      rcases name_run whole with ⟨n, c', ran, steps, kind⟩ | ⟨-, none⟩
      · have known : IsName n.value := whole.ready.names c.current (by simp [Cursor.pending]) _ kind
        have free : n.value ≠ "on" := by
          intro on
          simp [kind, on, TokenKind.isKeyword] at other
        have passes : Passes (NamesThat (·.value ≠ "on") false levels) c c' :=
          ⟨_, steps, ⟨n, free, by simp [kind, Name.spelling], legal_name known⟩,
            by simpa [kind] using .flat rfl⟩
        rw [bind_eq ran]
        exact (ViableAt.after passes
          (((directives_viable values allowsArguments_clear).ends fun _ => .spanned).run
            (passes.whole whole))
          fun _ _ _ _ _ holds => Condition.TailClosed.tail holds).mono (fun _ => .inl) fun _ _ => id
      · simp [none] at is_name
    · refine ViableAt.mono ?_ (fun _ => .inr) fun _ _ => id
      split
      · next on =>
        rw [TokenKind.isKeyword_iff] at on
        obtain ⟨c', ran, steps⟩ := whole.consume (by simp [on])
        have passes : Passes (keyword "on") c c' :=
          ⟨_, steps, by simp [on], by simpa [on] using .flat rfl⟩
        rw [bind_eq ran]
        exact (ViableAt.after passes
          (((namedType_viable false levels).map.bind fun _ =>
            inlineRest_viable values selections).run (passes.whole whole))
          fun _ _ _ _ _ holds => Condition.TailClosed.tail holds).mono (fun _ => .inl) fun _ _ => id
      · rw [pure_bind]
        exact ((inlineRest_viable values selections).run whole).mono (fun _ => .inr) fun _ _ => id
  blank _ _ _ := ((completes_names (by decide)).mul completes_directives).inl

theorem fragmentSelection_viable :
    Viable (Clear false levels) (fragmentSelection p q) (Selections levels) := by
  refine Viable.sub (.look .here fun _ => (Viable.expect rfl).bind fun _ =>
    fragmentRest_viable values selections) ?_
  rintro ks ⟨_, dots, _, ⟨_, ⟨n, other, named, legal_n⟩, _, ⟨ds, applied, legal_ds⟩, rfl⟩ |
    (⟨_, on, _, ⟨_, ⟨t, named, legal_t⟩, _, h, rfl⟩, rfl⟩ | h), rfl⟩
  · refine ⟨.spread ⟨none, n, ds⟩, ?_, ?_⟩
    · rw [Selection.spelling, FragmentSpread.spelling, mul_assoc]
      exact Language.append_mem_mul dots (Language.append_mem_mul named applied)
    · exact (Node.spread ⟨none, n, ds⟩).legal_flat rfl rfl other (legal_n.append legal_ds)
  · have inline := inlineFragments_of_rest (some t)
      (Language.append_mem_mul dots (Language.append_mem_mul on named)) legal_t h
    simpa using inline
  · exact inlineFragments_of_rest none (by rw [maybe, mul_one]; exact dots) .nil h

theorem selection_viable : Viable (Clear false levels) (selection p q) (Selections levels) := by
  refine Viable.sub (.look (.atMark _) fun _ => .ite (fragmentSelection_viable values selections)
    (field_viable values selections).map) ?_
  rintro ks (fragment | ⟨f, spelled, legal⟩)
  · exact fragment
  · exact ⟨.field f, spelled, legal⟩

end Selections

theorem completes_selections : Completes (Selections levels) [] := by
  refine ⟨[.name anyName.value], ⟨.field ⟨none, none, anyName, [], [], none⟩, ?_, ?_⟩, ?_⟩
  · simp [Selection.spelling, Field.spelling_eq, Name.spelling, maybe, block]
  · exact (Node.field ⟨none, none, anyName, [], [], none⟩).legal_flat
      (by simp [Node.tree, Field.tree, SelectionSet.optionalTree]) rfl trivial
      (legal_name isName_anyName)
  · simpa using TokenKind.lexes_name isName_anyName

/-- Selection sets within a limit of levels. -/
theorem selectionSet_viable (levels : Nat) :
    Viable (Clear false levels) (selectionSet levels) (SelectionSets levels) := by
  induction levels with
  | zero => exact tooDeep_viable.mono (fun _ => False.elim) fun _ _ holds => absurd holds.1 (by simp)
  | succ levels ih =>
    refine Viable.sub (.look .here fun _ => (many_viable
      (selection_viable (value_viable none levels) ih) .braces ?_ fun _ _ _ =>
        completes_selections).ends fun _ => .spanned) ?_
    · exact nil_notMem_legally Selection.node (fun s => by cases s <;> rfl) fun s => by
        cases s <;> rfl
    rintro ks ⟨_, ⟨_, opened, _, items, rfl⟩, _, closed, rfl⟩
    obtain ⟨s, ss, spelled, legal⟩ := legally_row_cons items
    refine ⟨⟨none, s :: ss⟩, ?_, (Node.selectionSet ⟨none, s :: ss⟩).legal_nested ?_ rfl
      (by simp [Node.IsLawful]) (by simp [Node.kind]) legal⟩
    · rw [SelectionSet.spelling_eq]
      exact Language.append_mem_mul (Language.append_mem_mul opened spelled) closed
    · simp [Node.tree, SelectionSet.tree, Selection.trees_eq_map]

/-- The keywords of operations. -/
def OperationKeywords : Spelling := fun ks => ∃ k : OperationKind, ks ∈ keyword k.keyword

theorem operationKind_viable : Viable ok operationKind OperationKeywords where
  run c whole := by
    have blank : Completes OperationKeywords [] :=
      (Completes.keyword (by decide)).mono fun _ mem => ⟨.query, mem⟩
    rw [operationKind, peek_bind]
    cases kind : c.current.kind with
    | name word =>
      cases found : OperationKind.ofKeyword? word with
      | none =>
        simp only [found]
        exact .unexpected fun _ _ _ => blank
      | some k =>
        simp only [found]
        have spelled : k.keyword = word := by simpa using List.find?_some found
        refine .token whole (by simp [kind]) (by simp [kind, TokenKind.isFlat]) fun c' => ?_
        exact .inl ⟨k, rfl, k, by simp [kind, spelled]⟩
    | _ => exact .unexpected fun _ _ _ => blank
  blank _ _ _ := (Completes.keyword (by decide)).mono fun _ mem => ⟨.query, mem⟩

/-! ### Definitions of variables -/

/-- Between the parentheses of an operation a dollar sign has to start the definition of a variable:
it may not stand between other marks, nor after an equals sign. -/
def Declares (levels : Nat) : Condition := fun ks opened =>
  opened.countP (·.nests) < levels ∧ ∀ us, ks = us ++ [.punctuator .dollar] →
    opened = [] ∧ us.getLast? ≠ some (.punctuator .equals)

instance : (Declares levels).TailClosed where
  tail ks ls opened holds := by
    refine ⟨holds.1, fun us last => ?_⟩
    obtain ⟨closed, free⟩ := holds.2 (ks ++ us) (by rw [last, List.append_assoc])
    refine ⟨closed, fun equals => free ?_⟩
    rw [List.getLast?_append, equals]
    rfl

theorem Declares.clear {ks : List TokenKind} {opened : List Punctuator}
    (h : Declares levels ks opened) : Clear false levels ks opened := ⟨h.1, by simp⟩

/-- Where a mark is open, nothing may vary. -/
theorem Declares.constant {ks : List TokenKind} {k : TokenKind} {m : Punctuator}
    {opened : List Punctuator} (h : Declares levels (k :: ks) (m :: opened)) :
    ks.getLast? ≠ some (.punctuator .dollar) := by
  intro last
  obtain ⟨us, rfl⟩ := List.getLast?_eq_some_iff.mp last
  have := (h.2 (k :: us) rfl).1
  simp at this

theorem Declares.allowsArguments : AllowsArguments (Declares levels) true levels where
  parens :=
    { marks := by simp [LeavesOpen.Closes]
      weaker := fun ks opened _ holds =>
        ⟨by simpa [Punctuator.nests] using holds.1, fun _ => holds.constant⟩ }
  room _ _ holds := Nat.zero_lt_of_lt holds.1

theorem Declares.allowsValue : AllowsValue
    (fun ks opened => Declares (levels + 1) ([.punctuator .equals] ++ ks) opened) true levels where
  list :=
    { marks := by simp [LeavesOpen.Closes]
      weaker := fun ks opened _ holds =>
        ⟨by simpa [Punctuator.nests] using holds.1, fun _ => Between.clear_last holds.constant⟩ }
  object :=
    { marks := by simp [LeavesOpen.Closes]
      weaker := fun ks opened _ holds =>
        ⟨by simpa [Punctuator.nests] using holds.1, fun _ => Between.clear_last holds.constant⟩ }
  dollar _ holds := by
    have := (holds.2 [.punctuator .equals] rfl).2
    simp at this

/-- Default values with legal trees. -/
abbrev Defaults (levels : Nat) : Spelling :=
  Legally true levels defaultSpelling (·.toList.map (·.tree))

/-- A value after an equals sign, given what the value can count on. -/
theorem optionalDefault_viable {position : ConstPosition} {behind : Condition}
    (values : Viable behind (value (some position) levels) (Values true levels))
    (weaker : ∀ ks opened, ok ([.punctuator .equals] ++ ks) opened → behind ks opened) :
    Viable ok (optionalDefault position levels) (Defaults levels) := by
  refine Viable.sub (.accept rfl values.map (.pure none) weaker) ?_
  rintro ks (⟨_, equals, _, ⟨v, valued, legal⟩, rfl⟩ | nothing)
  · exact ⟨some v, Language.append_mem_mul equals valued, legal⟩
  · exact ⟨none, nothing, .nil⟩

theorem constDirectives_viable [ok.TailClosed] (allows : AllowsArguments ok true levels) :
    Viable ok (constDirectives levels) (Directives true levels) :=
  directives_viable (value_viable (some .directiveArgument) levels) allows

theorem Declares.values {position : ConstPosition} :
    Viable (fun ks opened => Declares levels ([.punctuator .equals] ++ ks) opened)
      (value (some position) levels) (Values true levels) := by
  cases levels with
  | zero => exact tooDeep_viable.mono (fun _ => False.elim) fun _ _ holds => absurd holds.1 (by simp)
  | succ levels => exact valueWith_viable Declares.allowsValue (value_viable (some position) levels)

theorem variableDefinition_viable :
    Viable (Declares levels) (variableDefinition levels)
      (Legally false levels VariableDefinition.spelling fun d => [d.tree]) := by
  refine Viable.sub (.look .here fun _ => (variableName_viable false levels).bind fun _ =>
    (Viable.expect rfl).bind fun _ =>
    ((typeRef_viable false levels).mono (fun _ => id) fun _ _ => Declares.clear).bind fun _ =>
    (optionalDefault_viable Declares.values fun _ _ => id).bind fun _ =>
    (constDirectives_viable Declares.allowsArguments).ends fun _ => .spanned) ?_
  rintro ks ⟨_, ⟨_, dollar, _, ⟨n, named, legal_n⟩, rfl⟩, _, ⟨_, colon, _, ⟨_, ⟨t, typed, legal_t⟩,
    _, ⟨_, ⟨v, defaulted, legal_v⟩, _, ⟨ds, applied, legal_ds⟩, rfl⟩, rfl⟩, rfl⟩, rfl⟩
  refine ⟨⟨none, n, t, v, ds⟩, ?_, (Node.variableDefinition ⟨none, n, t, v, ds⟩).legal_flat rfl rfl
    ⟨fun x hx => legal_v.isConst x (Option.mem_toList.mpr hx), legal_ds.isConst⟩
    (((legal_n.append legal_t).append legal_v.relax).append legal_ds.relax)⟩
  rw [VariableDefinition.spelling]
  simp only [mul_assoc]
  rw [← mul_assoc]
  exact Language.append_mem_mul (Language.append_mem_mul dollar named)
    (Language.append_mem_mul colon (Language.append_mem_mul typed
      (Language.append_mem_mul defaulted applied)))

/-! ### Operations and fragments -/

/-- Fewer than so many levels are open, and no variable is begun where definitions of variables have
no place for one. -/
def Executes (levels : Nat) : Condition := fun ks opened =>
  opened.countP (·.nests) < levels ∧ ∀ us, ks = us ++ [.punctuator .dollar] → ¬ DeclaresConst us

theorem Executes.clear {ks ls : List TokenKind} {opened : List Punctuator}
    (h : Executes levels ks opened) : Clear false levels ls opened := ⟨h.1, by simp⟩

/-- What holds behind the keyword of an operation and its name, if it has one. -/
def Introduced (levels : Nat) (front : Spelling) : Condition := fun ls opened =>
  ∃ ks ∈ front, Executes levels (ks ++ ls) opened

theorem Introduced.parens :
    Between (Introduced levels (OperationKeywords * (Names false levels + 1))) (Declares levels)
      .openParen .closeParen where
  marks := by simp [LeavesOpen.Closes]
  weaker ks opened leaves holds := by
    obtain ⟨_, ⟨_, ⟨k, word⟩, names, named, rfl⟩, deep, begun⟩ := holds
    have short : names = [] ∨ ∃ text, names = [.name text] := by
      rcases named with ⟨n, spelled, -⟩ | nothing
      · exact .inr ⟨n.value, mem_word.mp spelled⟩
      · exact .inl nothing
    refine ⟨by simpa [Punctuator.nests] using deep, fun us last => ?_⟩
    subst last
    have free := begun ([.name k.keyword] ++ names ++ .punctuator .openParen :: us)
      (by rw [mem_word.mp word]; simp)
    by_contra refused
    refine free ⟨k.keyword, names, us, opened, rfl, short, (leaves.of_flat rfl).unclosed, ?_⟩
    by_contra allowed
    exact refused ⟨by grind, by grind⟩

/-- Definitions of variables with legal trees. -/
abbrev VariableDefinitions (levels : Nat) : Spelling :=
  Legally false levels (block .openParen .closeParen VariableDefinition.spelling) (·.map (·.tree))

/-- What stands after the keyword and the name of an operation, with legal trees. -/
abbrev OperationRests (levels : Nat) : Spelling :=
  VariableDefinitions levels * (Directives false levels * SelectionSets levels)

/-- Operations with legal trees. -/
abbrev Operations (levels : Nat) : Spelling :=
  Legally false levels (OperationDefinition.spelling .free) fun d => [d.tree]

theorem operations_of_rest {kind : OperationKind} (n : Option Name) {front rest : List TokenKind}
    (introduced : front ∈ keyword kind.keyword * maybe (·.spelling) n)
    (legal : AllLegal false levels (n.toList.map (·.tree)))
    (h : rest ∈ OperationRests levels) : front ++ rest ∈ Operations levels := by
  obtain ⟨_, ⟨vs, declared, legal_vs⟩, _, ⟨_, ⟨ds, applied, legal_ds⟩, _, ⟨s, selected, legal_s⟩,
    rfl⟩, rfl⟩ := h
  refine ⟨⟨none, kind, n, vs, ds, s⟩, .inl ?_,
    (Node.operation ⟨none, kind, n, vs, ds, s⟩).legal_flat rfl rfl trivial
      (((legal.append legal_vs).append legal_ds).append legal_s)⟩
  rw [mul_assoc, mul_assoc]
  exact Language.append_mem_mul introduced
    (Language.append_mem_mul declared (Language.append_mem_mul applied selected))

theorem completes_operationRests : Completes (OperationRests (levels + 1)) [] := by
  have selections : Completes (SelectionSets (levels + 1)) [] :=
    (selectionSet_viable _).blank (clear_nil (Nat.succ_pos levels))
  have none : Completes (VariableDefinitions (levels + 1)) [] := ⟨[], ⟨[], rfl, .nil⟩, by simp⟩
  exact none.mul (completes_directives.mul selections)

/-- An operation from its variables on. -/
theorem operationRest_viable {start : Position} {kind : OperationKind} {n : Option Name} :
    Viable (Introduced (levels + 1) (OperationKeywords * (Names false (levels + 1) + 1))) (do
      let variableDefinitions ←
        optionalMany .openParen .closeParen (variableDefinition (levels + 1))
      let ds ← directives (value none (levels + 1))
      let inner ← selectionSet (levels + 1)
      return ⟨some (← spanFrom start), kind, n, variableDefinitions, ds, inner⟩ :
      Parser OperationDefinition) (OperationRests (levels + 1)) := by
  have declared : Declares (levels + 1) [] [] := ⟨by simp, by simp⟩
  refine Viable.andThen ((optionalMany_viable variableDefinition_viable Introduced.parens
    (nil_notMem_legally .variableDefinition (fun _ => rfl) fun _ => rfl) fun _ _ _ =>
      variableDefinition_viable.blank declared).sub fun _ => legally_block) (Clear false (levels + 1))
    (fun _ => (directives_viable (value_viable none _) allowsArguments_clear).bind fun _ =>
      (selectionSet_viable _).ends fun _ => .spanned) ?_ fun _ _ _ => ?_
  · rintro ks ls opened - - ⟨front, -, holds⟩
    exact holds.clear
  · exact completes_directives.mul ((selectionSet_viable _).blank (clear_nil (Nat.succ_pos levels)))

theorem operation_viable : Viable (Executes (levels + 1)) (operation (levels + 1))
    (Operations (levels + 1)) := by
  have named : ∀ ks ls opened, ks ∈ Names false (levels + 1) + 1 →
      Introduced (levels + 1) OperationKeywords (ks ++ ls) opened →
      Introduced (levels + 1) (OperationKeywords * (Names false (levels + 1) + 1)) ls opened := by
    rintro ks ls opened mem ⟨front, keyword, holds⟩
    exact ⟨front ++ ks, Language.append_mem_mul keyword mem, by rwa [List.append_assoc]⟩
  refine Viable.sub (A := SelectionSets (levels + 1) + OperationKeywords *
      (Names false (levels + 1) * OperationRests (levels + 1) + 1 * OperationRests (levels + 1)))
    (.look .here fun _ => .look (.atMark _) fun _ => .ite
      (((selectionSet_viable _).mono (fun _ => id) fun _ _ => Executes.clear).ends
        fun _ => .spanned)
      (operationKind_viable.andThen (Introduced (levels + 1) OperationKeywords)
        (fun _ => .look .peek fun _ => .ite
          ((name_viable false _).map.andThen _ (fun _ => operationRest_viable)
            (fun ks ls opened mem _ => named ks ls opened (.inl mem))
            fun _ _ _ => completes_operationRests)
          ((Viable.pure none).andThen _ (fun _ => operationRest_viable)
            (fun ks ls opened mem _ => named ks ls opened (.inr mem))
            fun _ _ _ => completes_operationRests))
        (fun ks ls opened mem _ holds => ⟨ks, mem, holds⟩)
        fun _ _ _ => (Completes.one.mul completes_operationRests).inr)) ?_
  rintro ks (⟨s, selected, legal⟩ | ⟨_, ⟨kind, word⟩, _, ⟨_, ⟨n, named, legal⟩, rest, h, rfl⟩ |
    ⟨_, nothing, rest, h, rfl⟩, rfl⟩)
  · exact ⟨⟨none, .query, none, [], [], s⟩, .inr ⟨rfl, ⟨rfl, rfl, rfl, rfl⟩, selected⟩,
      (Node.operation ⟨none, .query, none, [], [], s⟩).legal_flat rfl rfl trivial legal⟩
  · have operation := operations_of_rest (some n) (Language.append_mem_mul word named) legal h
    rwa [List.append_assoc] at operation
  · have operation := operations_of_rest none (Language.append_mem_mul word nothing) .nil h
    rwa [List.append_assoc] at operation

/-- Fragments with legal trees. -/
abbrev Fragments (levels : Nat) : Spelling :=
  Legally false levels FragmentDefinition.spelling fun d => [d.tree]

theorem fragment_viable : Viable (Clear false levels) (fragment levels) (Fragments levels) := by
  refine Viable.sub (.look .here fun _ => (Viable.expectKeyword (by decide)).bind fun _ =>
    (unreservedName_viable .fragmentName false levels).bind fun _ =>
    (Viable.expectKeyword (by decide)).bind fun _ => (namedType_viable false levels).bind fun _ =>
    (directives_viable (value_viable none levels) allowsArguments_clear).bind fun _ =>
    (selectionSet_viable levels).ends fun _ => .spanned) ?_
  rintro ks ⟨_, word, _, ⟨_, ⟨n, free, named, legal_n⟩, _, ⟨_, on, _, ⟨_, ⟨t, typed, legal_t⟩, _,
    ⟨_, ⟨ds, applied, legal_ds⟩, _, ⟨s, selected, legal_s⟩, rfl⟩, rfl⟩, rfl⟩, rfl⟩, rfl⟩
  refine ⟨⟨none, n, t, ds, s⟩, ?_, (Node.fragment ⟨none, n, t, ds, s⟩).legal_flat rfl rfl
    (show n.value ≠ "on" by simpa [reservedWords] using free)
    (((legal_n.append legal_t).append legal_ds).append legal_s)⟩
  rw [FragmentDefinition.spelling]
  simp only [mul_assoc]
  exact Language.append_mem_mul word (Language.append_mem_mul named (Language.append_mem_mul on
    (Language.append_mem_mul typed (Language.append_mem_mul applied selected))))

end GraphQL.Parser
