import GraphQL.Proofs.Sound.Document
import GraphQL.Proofs.Viable.Executable

/-! The parsers of schemas, types, directives and extensions are viable, and so is that of
definitions. -/
namespace GraphQL.Parser

open Spelling Computability

variable {ok : Condition} {const : Bool} {levels : Nat} {c : Cursor}

section Parts

variable [ok.TailClosed]

theorem interfaces_viable (levels : Nat) : Viable ok interfaces
    (Legally true levels (introduced .free (keyword "implements") .ampersand)
      (·.map (·.tree))) := by
  refine Viable.sub (.acceptKeyword (separated_viable (namedType_viable true levels) rfl)
    (.pure [])) ?_
  rintro ks (⟨_, word, _, h, rfl⟩ | nothing)
  · obtain ⟨t, ts, spelled, legal⟩ := legally_separated h
    exact ⟨t :: ts, Language.append_mem_mul word spelled, legal⟩
  · exact ⟨[], nothing, .nil⟩

theorem members_viable (levels : Nat) : Viable ok members
    (Legally true levels (introduced .free (mark .equals) .pipe) (·.map (·.tree))) := by
  refine Viable.sub (.accept rfl (separated_viable (namedType_viable true levels) rfl) (.pure [])
    fun _ _ holds => Condition.TailClosed.tail holds) ?_
  rintro ks (⟨_, equals, _, h, rfl⟩ | nothing)
  · obtain ⟨t, ts, spelled, legal⟩ := legally_separated h
    exact ⟨t :: ts, Language.append_mem_mul equals spelled, legal⟩
  · exact ⟨[], nothing, .nil⟩

end Parts

/-- A default value where nothing may vary. -/
theorem constDefault_viable {position : ConstPosition} :
    Viable (Clear true levels) (optionalDefault position levels) (Defaults levels) :=
  optionalDefault_viable (value_viable (some position) levels)
    fun _ _ holds => Condition.TailClosed.tail holds

theorem inputDefinition_viable :
    Viable (Clear true (levels + 1)) (inputDefinition (levels + 1))
      (Legally true (levels + 1) InputDefinition.spelling fun d => [d.tree]) := by
  refine Viable.sub (.look .here fun _ => (optionalString_viable true levels).bind fun _ =>
    (name_viable true (levels + 1)).bind fun _ => (Viable.expect rfl).bind fun _ =>
    (typeRef_viable true _).bind fun _ => constDefault_viable.bind fun _ =>
    (constDirectives_viable allowsArguments_clear).ends fun _ => .spanned) ?_
  rintro ks ⟨_, ⟨s, described, legal_s⟩, _, ⟨_, ⟨n, named, legal_n⟩, _, ⟨_, colon, _,
    ⟨_, ⟨t, typed, legal_t⟩, _, ⟨_, ⟨v, defaulted, legal_v⟩, _, ⟨ds, applied, legal_ds⟩, rfl⟩, rfl⟩,
    rfl⟩, rfl⟩, rfl⟩
  refine ⟨⟨none, s, n, t, v, ds⟩, ?_, (Node.inputDefinition ⟨none, s, n, t, v, ds⟩).legal_flat rfl
    rfl ⟨fun x hx => legal_v.isConst x (Option.mem_toList.mpr hx), legal_ds.isConst⟩
    (((legal_s.append (legal_n.append legal_t)).append legal_v).append legal_ds)⟩
  rw [InputDefinition.spelling]
  simp only [mul_assoc]
  exact Language.append_mem_mul described (Language.append_mem_mul named
    (Language.append_mem_mul colon (Language.append_mem_mul typed
      (Language.append_mem_mul defaulted applied))))

/-- Definitions of arguments with legal trees. -/
abbrev ArgumentDefinitions (levels : Nat) : Spelling :=
  Legally true levels argumentsSpelling (·.map (·.tree))

theorem argumentDefinitions_viable
    (parens : Between ok (Clear true (levels + 1)) .openParen .closeParen) :
    Viable ok (argumentDefinitions (levels + 1)) (ArgumentDefinitions (levels + 1)) :=
  (optionalMany_viable inputDefinition_viable parens
    (nil_notMem_legally .inputDefinition (fun _ => rfl) fun _ => rfl) fun _ _ _ =>
      inputDefinition_viable.blank (clear_nil (Nat.succ_pos levels))).sub fun _ => legally_block

theorem fieldDefinition_viable :
    Viable (Clear true (levels + 1)) (fieldDefinition (levels + 1))
      (Legally true (levels + 1) FieldDefinition.spelling fun d => [d.tree]) := by
  refine Viable.sub (.look .here fun _ => (optionalString_viable true levels).bind fun _ =>
    (name_viable true (levels + 1)).bind fun _ => (argumentDefinitions_viable .parens).bind fun _ =>
    (Viable.expect rfl).bind fun _ => (typeRef_viable true _).bind fun _ =>
    (constDirectives_viable allowsArguments_clear).ends fun _ => .spanned) ?_
  rintro ks ⟨_, ⟨s, described, legal_s⟩, _, ⟨_, ⟨n, named, legal_n⟩, _, ⟨_, ⟨as, taken, legal_as⟩,
    _, ⟨_, colon, _, ⟨_, ⟨t, typed, legal_t⟩, _, ⟨ds, applied, legal_ds⟩, rfl⟩, rfl⟩, rfl⟩, rfl⟩,
    rfl⟩
  refine ⟨⟨none, s, n, as, t, ds⟩, ?_, (Node.fieldDefinition ⟨none, s, n, as, t, ds⟩).legal_flat rfl
    rfl legal_ds.isConst
    ((((legal_s.append legal_n).append legal_as).append legal_t).append legal_ds)⟩
  rw [FieldDefinition.spelling]
  simp only [mul_assoc]
  exact Language.append_mem_mul described (Language.append_mem_mul named
    (Language.append_mem_mul taken (Language.append_mem_mul colon
      (Language.append_mem_mul typed applied))))

theorem enumValueDefinition_viable :
    Viable (Clear true (levels + 1)) (enumValueDefinition (levels + 1))
      (Legally true (levels + 1) EnumValueDefinition.spelling fun d => [d.tree]) := by
  refine Viable.sub (.look .here fun _ => (optionalString_viable true levels).bind fun _ =>
    (unreservedName_viable .enumValue true (levels + 1)).bind fun _ =>
    (constDirectives_viable allowsArguments_clear).ends fun _ => .spanned) ?_
  rintro ks ⟨_, ⟨s, described, legal_s⟩, _, ⟨_, ⟨n, free, named, legal_n⟩, _,
    ⟨ds, applied, legal_ds⟩, rfl⟩, rfl⟩
  refine ⟨⟨none, s, n, ds⟩, ?_, (Node.enumValueDefinition ⟨none, s, n, ds⟩).legal_flat rfl rfl
    ⟨free, legal_ds.isConst⟩ ((legal_s.append legal_n).append legal_ds)⟩
  rw [EnumValueDefinition.spelling, mul_assoc]
  exact Language.append_mem_mul described (Language.append_mem_mul named applied)

theorem rootType_viable (levels : Nat) [ok.TailClosed] :
    Viable ok rootType (Legally true levels RootType.spelling fun t => [t.tree]) := by
  refine Viable.sub (.look .here fun _ => operationKind_viable.bind fun _ =>
    (Viable.expect rfl).bind fun _ => (namedType_viable true levels).ends fun _ => .spanned) ?_
  rintro ks ⟨_, ⟨kind, word⟩, _, ⟨_, colon, _, ⟨t, named, legal⟩, rfl⟩, rfl⟩
  refine ⟨⟨none, kind, t⟩, ?_, (Node.rootType ⟨none, kind, t⟩).legal_flat rfl rfl trivial legal⟩
  rw [RootType.spelling, mul_assoc]
  exact Language.append_mem_mul word (Language.append_mem_mul colon named)

/-! ### Bodies -/

/-- Fewer than so many levels are open in the body of a definition, and no variable is begun. -/
def Defines (levels : Nat) : Condition := fun ks opened =>
  (insideBody opened).countP (·.nests) < levels ∧ ks.getLast? ≠ some (.punctuator .dollar)

instance : (Defines levels).TailClosed where
  tail ks ls opened holds := by
    refine ⟨holds.1, fun last => holds.2 ?_⟩
    rw [List.getLast?_append, last]
    rfl

namespace Defines

theorem nil : Defines (levels + 1) [] [] := ⟨by simp [insideBody], by simp⟩

theorem parens : Between (Defines levels) (Clear true levels) .openParen .closeParen where
  marks := by simp [LeavesOpen.Closes]
  weaker ks opened _ holds := ⟨by simpa [insideBody, Punctuator.nests] using holds.1,
    fun _ => Between.clear_last holds.2⟩

/-- The braces around a body do not count. -/
theorem braces : Between (Defines levels) (Clear true levels) .openBrace .closeBrace where
  marks := by simp [LeavesOpen.Closes]
  weaker ks opened _ holds := ⟨holds.1, fun _ => Between.clear_last holds.2⟩

theorem allowsArguments : AllowsArguments (Defines levels) true levels where
  parens := parens
  room _ _ holds := Nat.zero_lt_of_lt holds.1

end Defines

theorem definesDirectives_viable :
    Viable (Defines levels) (constDirectives levels) (Directives true levels) :=
  constDirectives_viable Defines.allowsArguments

/-- Items between braces with legal trees. -/
abbrev Braced {α : Type} (levels : Nat) (spelling : α → Spelling) (tree : α → Tree Node) : Spelling :=
  Legally true levels (block .openBrace .closeBrace spelling) (·.map tree)

theorem braced_viable {α : Type} {item : Parser α} {spelling : α → Spelling} {tree : α → Tree Node}
    (node : α → Node) (trees : ∀ a, (node a).tree = tree a)
    (spells : ∀ a, (node a).spelling = spelling a)
    (items : Viable (Clear true (levels + 1)) item
      (Legally true (levels + 1) spelling fun a => [tree a])) :
    Viable (Defines (levels + 1)) (braced item) (Braced (levels + 1) spelling tree) :=
  (optionalMany_viable items Defines.braces (nil_notMem_legally node trees spells) fun _ _ _ =>
    items.blank (clear_nil (Nat.succ_pos levels))).sub fun _ => legally_block

/-- What stands after the name of a type of some form, with legal trees. -/
def TypeRests (levels : Nat) (form : TypeForm) : Spelling := fun ks =>
  ∃ (ds : List Directive) (body : TypeBody), body.form = form ∧
    ks ∈ body.leadingSpelling .free * row (·.spelling) ds * body.trailingSpelling .free ∧
    AllLegal true levels (body.leadingTrees ++ ds.map (·.tree) ++ body.trailingTrees)

theorem typeRests_of_parts (body : TypeBody) {lead mid trail : List TokenKind}
    (leading : lead ∈ body.leadingSpelling .free) (legal : AllLegal true levels body.leadingTrees)
    (directives : mid ∈ Directives true levels) (trailing : trail ∈ body.trailingSpelling .free)
    (legal' : AllLegal true levels body.trailingTrees) :
    lead ++ (mid ++ trail) ∈ TypeRests levels body.form := by
  obtain ⟨ds, applied, legal_ds⟩ := directives
  refine ⟨ds, body, rfl, ?_, (legal.append legal_ds).append legal'⟩
  rw [← List.append_assoc]
  exact Language.append_mem_mul (Language.append_mem_mul leading applied) trailing

theorem typeBody_viable (form : TypeForm) :
    Viable (Defines (levels + 1)) (typeBody (levels + 1) form) (TypeRests (levels + 1) form) := by
  have fields : Viable (Defines (levels + 1)) (braced (fieldDefinition (levels + 1)))
      (Braced (levels + 1) FieldDefinition.spelling (·.tree)) :=
    braced_viable .fieldDefinition (fun _ => rfl) (fun _ => rfl) fieldDefinition_viable
  have values : Viable (Defines (levels + 1)) (braced (enumValueDefinition (levels + 1)))
      (Braced (levels + 1) EnumValueDefinition.spelling (·.tree)) :=
    braced_viable .enumValueDefinition (fun _ => rfl) (fun _ => rfl) enumValueDefinition_viable
  have inputs : Viable (Defines (levels + 1)) (braced (inputDefinition (levels + 1)))
      (Braced (levels + 1) InputDefinition.spelling (·.tree)) :=
    braced_viable .inputDefinition (fun _ => rfl) (fun _ => rfl) inputDefinition_viable
  cases form with
  | scalar =>
    refine Viable.sub (definesDirectives_viable.ends fun _ => .pure _) fun ks directives => ?_
    have rest := typeRests_of_parts .scalar rfl .nil directives rfl .nil
    rwa [List.append_nil] at rest
  | object =>
    refine Viable.sub ((interfaces_viable (levels + 1)).bind fun _ =>
      definesDirectives_viable.bind fun _ => fields.ends fun _ => .pure _) ?_
    rintro ks ⟨_, ⟨is, implemented, legal⟩, _, ⟨_, directives, _, ⟨fs, listed, legal'⟩, rfl⟩, rfl⟩
    exact typeRests_of_parts (.object is fs) implemented legal directives listed legal'
  | interface =>
    refine Viable.sub ((interfaces_viable (levels + 1)).bind fun _ =>
      definesDirectives_viable.bind fun _ => fields.ends fun _ => .pure _) ?_
    rintro ks ⟨_, ⟨is, implemented, legal⟩, _, ⟨_, directives, _, ⟨fs, listed, legal'⟩, rfl⟩, rfl⟩
    exact typeRests_of_parts (.interface is fs) implemented legal directives listed legal'
  | union =>
    refine Viable.sub (definesDirectives_viable.bind fun _ =>
      (members_viable (levels + 1)).ends fun _ => .pure _) ?_
    rintro ks ⟨_, directives, _, ⟨ms, listed, legal⟩, rfl⟩
    exact typeRests_of_parts (.union ms) rfl .nil directives listed legal
  | enum =>
    refine Viable.sub (definesDirectives_viable.bind fun _ => values.ends fun _ => .pure _) ?_
    rintro ks ⟨_, directives, _, ⟨vs, listed, legal⟩, rfl⟩
    exact typeRests_of_parts (.enum vs) rfl .nil directives listed legal
  | inputObject =>
    refine Viable.sub (definesDirectives_viable.bind fun _ => inputs.ends fun _ => .pure _) ?_
    rintro ks ⟨_, directives, _, ⟨fs, listed, legal⟩, rfl⟩
    exact typeRests_of_parts (.inputObject fs) rfl .nil directives listed legal

/-! ### Definitions -/

/-- A type after its keyword, with legal trees. -/
theorem typeSpelling_of_rest {form : TypeForm} {ks : List TokenKind}
    (h : ks ∈ Names true levels * TypeRests levels form) :
    ∃ n ds body, body.form = form ∧ ks ∈ typeSpelling .free n ds body ∧ AllConst ds ∧
      AllLegal true levels
        ([n.tree] ++ body.leadingTrees ++ ds.map (·.tree) ++ body.trailingTrees) := by
  obtain ⟨_, ⟨n, named, legal_n⟩, _, ⟨ds, body, form, spelled, legal⟩, rfl⟩ := h
  refine ⟨n, ds, body, form, ?_, fun d hd => ?_, ?_⟩
  · rw [typeSpelling, mul_assoc, mul_assoc, ← mul_assoc (body.leadingSpelling .free)]
    exact Language.append_mem_mul named spelled
  · exact (legal d.tree (by simp; grind)).isConst
  · simpa only [List.append_assoc] using legal_n.append legal

/-- What stands after a description starts with the token that a definition is recognized by. -/
theorem described_viableAt {α : Type} {t : Token} {f : Option StringValue → Parser α} {L : Spelling}
    (whole : c.Whole) (leads : Leads c t)
    (rest : ∀ o ⦃c'⦄, c'.Whole → c'.current = t → ViableAt (Defines (levels + 1)) L c' (f o c'))
    (blank : Completes L []) :
    ViableAt (Defines (levels + 1))
      ((Legally true (levels + 1) descriptionSpelling (·.toList.map (·.tree))) * L) c
      ((optionalString >>= f) c) := by
  refine .seq whole ((optionalString_viable true levels).run whole) ?_
    (fun _ _ _ _ _ holds => Condition.TailClosed.tail holds) fun _ _ _ => blank
  intro o c' described whole'
  exact rest o whole' (leads.optionalString whole.ready described)

/-- Definitions of types with legal trees. -/
abbrev TypeDefinitions (levels : Nat) : Spelling :=
  Legally true levels (TypeDefinition.spelling .free) fun d => [d.tree]

theorem completes_typeRests {form : TypeForm} : Completes (TypeRests (levels + 1) form) [] :=
  (typeBody_viable form).blank Defines.nil

theorem typeDefinition_viableAt {t : Token} {form : TypeForm} (whole : c.Whole)
    (leads : Leads c t) (kind : t.kind = .name form.keyword) :
    ViableAt (Defines (levels + 1)) (TypeDefinitions (levels + 1)) c
      (typeDefinition (m := Parser) (levels + 1) form c) := by
  have named : Viable (Defines (levels + 1)) name (Names true (levels + 1)) := name_viable _ _
  have rest : Completes (Names true (levels + 1) * TypeRests (levels + 1) form) [] :=
    (named.blank Defines.nil).mul completes_typeRests
  have known : IsName form.keyword := by cases form <;> decide
  simp only [typeDefinition, lifted_self]
  rw [here_bind]
  refine ViableAt.mono (described_viableAt whole leads (fun _ c' whole' current => ?_)
    ((Completes.keyword known).mul rest)) ?_ fun _ _ => id
  · subst current
    refine .seq whole' (.consume whole' kind (by simp) rfl) (fun _ _ _ whole'' => ?_)
      (fun _ _ _ _ _ holds => Condition.TailClosed.tail holds) fun _ _ _ => rest
    exact ((name_viable true (levels + 1)).bind fun _ =>
        (typeBody_viable form).ends fun _ => .spanned).run whole''
  rintro ks ⟨_, ⟨s, described, legal_s⟩, _, ⟨_, word, _, h, rfl⟩, rfl⟩
  obtain ⟨n, ds, body, rfl, spelled, constant, legal⟩ := typeSpelling_of_rest h
  refine ⟨⟨none, s, n, ds, body⟩, ?_,
    (Node.typeDefinition ⟨none, s, n, ds, body⟩).legal_flat rfl rfl constant ?_⟩
  · rw [TypeDefinition.spelling, mul_assoc]
    exact Language.append_mem_mul described (Language.append_mem_mul word spelled)
  · simpa only [List.append_assoc] using legal_s.append legal

/-- Definitions of schemas with legal trees. -/
abbrev SchemaDefinitions (levels : Nat) : Spelling :=
  Legally true levels SchemaDefinition.spelling fun d => [d.tree]

theorem rootType_some_token : [] ∉ Legally true levels RootType.spelling fun t => [t.tree] :=
  nil_notMem_legally .rootType (fun _ => rfl) fun _ => rfl

theorem schemaDefinition_viable :
    Viable (Defines (levels + 1)) (schemaDefinition (levels + 1))
      (SchemaDefinitions (levels + 1)) := by
  refine Viable.sub (.look .here fun _ => (optionalString_viable true levels).bind fun _ =>
    (Viable.expectKeyword (by decide)).bind fun _ => definesDirectives_viable.bind fun _ =>
    (many_viable (rootType_viable (levels + 1)) Defines.braces rootType_some_token
      fun _ _ holds => (rootType_viable (levels + 1)).blank holds).ends fun _ => .spanned) ?_
  rintro ks ⟨_, ⟨s, described, legal_s⟩, _, ⟨_, word, _, ⟨_, ⟨ds, applied, legal_ds⟩, _,
    ⟨_, ⟨_, opened, _, items, rfl⟩, _, closed, rfl⟩, rfl⟩, rfl⟩, rfl⟩
  obtain ⟨t, ts, spelled, legal⟩ := legally_row_cons items
  refine ⟨⟨none, s, ds, t :: ts⟩, ?_, (Node.schema ⟨none, s, ds, t :: ts⟩).legal_flat rfl rfl
    ⟨legal_ds.isConst, by simp⟩ ((legal_s.append legal_ds).append legal)⟩
  rw [SchemaDefinition.spelling]
  simp only [mul_assoc]
  rw [← mul_assoc (mark .openBrace)]
  exact Language.append_mem_mul described (Language.append_mem_mul word
    (Language.append_mem_mul applied (Language.append_mem_mul
      (Language.append_mem_mul opened spelled) closed)))

/-- A name of a place where directives may be applied. -/
abbrev IsLocation (n : Name) : Prop := ∃ l : DirectiveLocation, n.value = l.name

theorem directiveLocation_viable (const : Bool) (levels : Nat) :
    Viable ok directiveLocation (NamesThat IsLocation const levels) := by
  refine .look .peek fun t => names_viable const levels ⟨.field, rfl⟩ fun n c => ?_
  cases known : DirectiveLocation.ofName? n.value with
  | some l =>
    have spelled : l.name = n.value := by simpa using List.find?_some known
    exact .inl ⟨rfl, l, spelled.symm⟩
  | none => exact .inr ⟨_, rfl, id⟩

theorem legally_locations {ks : List TokenKind}
    (h : ks ∈ (mark .pipe + 1) * (NamesThat IsLocation const levels *
      (mark .pipe * NamesThat IsLocation const levels)∗)) :
    ∃ ns, ks ∈ Spelling.separated .free .pipe Name.spelling ns ∧
      AllLegal const levels (ns.map (·.tree)) ∧ ns ≠ [] ∧ ∀ n ∈ ns, IsLocation n := by
  have known : NamesThat IsLocation const levels =
      Legally const levels (fun n : {n // IsLocation n} => n.1.spelling) fun n => [n.1.tree] := by
    ext ls
    constructor
    · rintro ⟨n, known, spelled, legal⟩
      exact ⟨⟨n, known⟩, spelled, legal⟩
    · rintro ⟨n, spelled, legal⟩
      exact ⟨n.1, n.2, spelled, legal⟩
  rw [known] at h
  obtain ⟨n, ns, spelled, legal⟩ := legally_separated h
  refine ⟨(n :: ns).map (·.1), ?_, ?_, by simp, ?_⟩
  · simpa [Spelling.separated, row, Function.comp_def] using spelled
  · simpa [Function.comp_def] using legal
  · rintro _ mem
    obtain ⟨l, -, rfl⟩ := List.mem_map.mp mem
    exact l.2

/-- Definitions of directives with legal trees. -/
abbrev DirectiveDefinitions (levels : Nat) : Spelling :=
  Legally true levels (DirectiveDefinition.spelling .free) fun d => [d.tree]

theorem directiveDefinition_viable :
    Viable (Defines (levels + 1)) (directiveDefinition (levels + 1))
      (DirectiveDefinitions (levels + 1)) := by
  refine Viable.sub (.look .here fun _ => (optionalString_viable true levels).bind fun _ =>
    (Viable.expectKeyword (by decide)).bind fun _ => (Viable.expect rfl).bind fun _ =>
    (name_viable true (levels + 1)).bind fun _ =>
    (argumentDefinitions_viable Defines.parens).bind fun _ => Viable.acceptKeywordOnly.bind fun _ =>
    (Viable.expectKeyword (by decide)).bind fun _ =>
    (separated_viable (directiveLocation_viable true (levels + 1)) rfl).ends fun _ => .spanned) ?_
  rintro ks ⟨_, ⟨s, described, legal_s⟩, _, ⟨_, word, _, ⟨_, at_sign, _, ⟨_, ⟨n, named, legal_n⟩, _,
    ⟨_, ⟨as, taken, legal_as⟩, _, ⟨_, repeated, _, ⟨_, on, _, h, rfl⟩, rfl⟩, rfl⟩, rfl⟩, rfl⟩, rfl⟩, rfl⟩
  obtain ⟨ls, located, legal_ls, some_location, known⟩ := legally_locations h
  obtain ⟨b, again⟩ : ∃ b, _ ∈ repeatableSpelling b := by
    rcases repeated with word | nothing
    · exact ⟨true, word⟩
    · exact ⟨false, nothing⟩
  refine ⟨⟨none, s, n, as, b, ls⟩, ?_,
    (Node.directiveDefinition ⟨none, s, n, as, b, ls⟩).legal_flat rfl rfl ⟨some_location, known⟩
    (((legal_s.append legal_n).append legal_as).append legal_ls)⟩
  rw [DirectiveDefinition.spelling]
  simp only [mul_assoc]
  exact Language.append_mem_mul described (Language.append_mem_mul word
    (Language.append_mem_mul at_sign (Language.append_mem_mul named
      (Language.append_mem_mul taken (Language.append_mem_mul again
        (Language.append_mem_mul on located))))))

/-! ### Extensions -/

/-- The members of a language that have tokens. -/
def Nonblank (A : Spelling) : Spelling := fun ks => ks ∈ A ∧ ks ≠ []

/-- What may not be empty. The token after something empty is the one that does not fit. -/
theorem nonblank_viable {α β : Type} {p : Parser α} {f : α → Parser β} {A : Spelling}
    {spelling : α → Spelling} {trees : α → List (Tree Node)} (empty : α → Bool)
    (h : Viable ok p A) (reads : Reads const levels p spelling trees)
    (nothing : ∀ a, empty a = true → spelling a = 1)
    (something : ∀ a, empty a = false → [] ∉ spelling a)
    (rest : ∀ a, Viable (fun _ _ => True) (f a) 1) (blank : Completes (Nonblank A) []) :
    Viable ok (do
      let a ← p
      if empty a then unexpected none else f a) (Nonblank A) where
  run c whole := by
    have read := h.run whole
    rw [bind_result]
    match ran : p c with
    | .error e =>
      rw [ran] at read
      intro unexpected
      obtain ⟨ts, c', opened, steps, misfit, leaves, completes⟩ := read unexpected
      refine ⟨ts, c', opened, steps, misfit, leaves, fun holds => ?_⟩
      cases ts with
      | nil => exact blank
      | cons t ts =>
        obtain ⟨more, mem, lexes⟩ := completes holds
        exact ⟨more, ⟨mem, by simp⟩, lexes⟩
    | .ok (a, c') =>
      rw [ran] at read
      obtain ⟨ts, steps, mem, closed⟩ := read
      obtain ⟨us, steps', reading⟩ := reads whole.ready ran
      have same : ts = us := List.append_cancel_right (steps.pending.symm.trans steps'.pending)
      subst same
      cases ended : empty a with
      | true =>
        have spelled := reading.spelled
        rw [nothing a ended] at spelled
        obtain rfl : ts = [] := List.map_eq_nil_iff.mp spelled
        simp only [ended]
        exact fun _ => ⟨[], c', [], steps, ⟨rfl, none, rfl⟩, .nil, fun _ => blank⟩
      | false =>
        have some_token : kinds ts ≠ [] := by
          intro none
          exact something a ended (none ▸ reading.spelled)
        have passes : Passes (Nonblank A) c c' := ⟨ts, steps, ⟨mem, some_token⟩, closed⟩
        have after : ViableAt ok _ c _ := .after passes ((rest a).run (passes.whole whole))
          fun _ _ _ _ _ _ => trivial
        rw [mul_one] at after
        simpa [ended] using after
  blank _ _ _ := blank

/-- A directive that can be written wherever directives are allowed. -/
theorem directive_mem : [.punctuator .atSign, .name anyName.value] ∈ Directives const levels := by
  refine ⟨[⟨none, anyName, []⟩], ?_, ?_⟩
  · simp [Directive.spelling, block, Name.spelling, mem_word_mul]
  · exact (Node.directive ⟨none, anyName, []⟩).legal_flat rfl rfl trivial (legal_name isName_anyName)

theorem directive_lexes :
    ∀ k ∈ [TokenKind.punctuator .atSign, .name anyName.value], k.Lexes := by
  simpa using ⟨TokenKind.lexes_mark .atSign, TokenKind.lexes_name isName_anyName⟩

/-- What stands after the keywords of a schema extension, with legal trees. -/
abbrev SchemaAdditions (levels : Nat) : Spelling :=
  Nonblank (Directives true levels * Braced levels RootType.spelling (·.tree))

theorem schemaExtension_viable (start : Position) :
    Viable (Defines (levels + 1)) (schemaExtension (levels + 1) start)
      (SchemaAdditions (levels + 1)) := by
  have roots : Viable (Defines (levels + 1)) (braced rootType)
      (Braced (levels + 1) RootType.spelling (·.tree)) :=
    braced_viable .rootType (fun _ => rfl) (fun _ => rfl) (rootType_viable (levels + 1))
  have parts : Viable (Defines (levels + 1)) (do
      let ds ← constDirectives (levels + 1)
      let ts ← braced rootType
      return (ds, ts)) _ :=
    definesDirectives_viable.bind fun _ => roots.ends fun _ => .pure _
  have reads : Reads true (levels + 1) (do
      let ds ← constDirectives (levels + 1)
      let ts ← braced rootType
      return (ds, ts))
      (fun r => row (·.spelling) r.1 * block .openBrace .closeBrace (·.spelling) r.2)
      fun r => r.1.map (·.tree) ++ r.2.map (·.tree) := by
    intro c c' r ready h
    simp only [bind_ok, pure_ok] at h
    obtain ⟨ds, c₁, applied, ts, c₂, listed, rfl, rfl⟩ := h
    have directives := constDirectives_reads ready applied
    exact directives.trans (optionalMany_reads rootType_reads _ _ (directives.ready ready) listed)
  have additions := nonblank_viable
    (f := fun r => do return (⟨some (← spanFrom start), r.1, r.2⟩ : SchemaExtension))
    (fun r => r.1.isEmpty && r.2.isEmpty) parts reads ?_ ?_ (fun _ => .spanned) ?_
  · simpa only [schemaExtension, lifted_self, bind_assoc, pure_bind] using additions
  · rintro ⟨ds, ts⟩ none
    obtain ⟨rfl, rfl⟩ : ds = [] ∧ ts = [] := by simpa using none
    simp [block]
  · rintro ⟨_ | ⟨d, ds⟩, _ | ⟨t, ts⟩⟩ some <;>
      simp_all [Directive.spelling, block_cons]
  · exact ⟨[.punctuator .atSign, .name anyName.value],
      ⟨Language.mem_mul.mpr ⟨_, directive_mem, [], ⟨[], rfl, .nil⟩, by simp⟩, by simp⟩,
      directive_lexes⟩

/-- A body that says nothing has no tokens. -/
theorem spelling_of_isEmpty {body : TypeBody} (empty : body.isEmpty = true) :
    body.leadingSpelling .free = 1 ∧ body.trailingSpelling .free = 1 := by
  cases body <;>
    simp_all [TypeBody.isEmpty, TypeBody.leadingSpelling, TypeBody.trailingSpelling, introduced,
      block]

/-- A type extension after its keywords, with legal trees. -/
abbrev TypeAdditions (levels : Nat) (form : TypeForm) : Spelling :=
  Names true levels * Nonblank (TypeRests levels form)

theorem typeExtension_viable (start : Position) (form : TypeForm) :
    Viable (Defines (levels + 1)) (typeExtension (levels + 1) start form)
      (TypeAdditions (levels + 1) form) := by
  refine (name_viable true (levels + 1)).bind fun n => nonblank_viable
    (fun r => r.1.isEmpty && r.2.isEmpty) (typeBody_viable form) (typeBody_reads form)
    ?_ ?_ (fun _ => .spanned) ?_
  · rintro ⟨ds, body⟩ none
    obtain ⟨rfl, empty⟩ : ds = [] ∧ body.isEmpty = true := by simpa using none
    obtain ⟨leading, trailing⟩ := spelling_of_isEmpty empty
    simp [leading, trailing]
  · rintro ⟨_ | ⟨d, ds⟩, body⟩ some
    · rcases body with
        _ | ⟨_ | _, _ | _⟩ | ⟨_ | _, _ | _⟩ | ⟨_ | _⟩ | ⟨_ | _⟩ | ⟨_ | _⟩ <;>
        simp_all [TypeBody.isEmpty, TypeBody.leadingSpelling, TypeBody.trailingSpelling, introduced,
          block]
    · simp [Directive.spelling]
  · refine ⟨[.punctuator .atSign, .name anyName.value], ⟨?_, by simp⟩, directive_lexes⟩
    cases form with
    | scalar => exact typeRests_of_parts .scalar rfl .nil directive_mem rfl .nil
    | object => exact typeRests_of_parts (.object [] []) rfl .nil directive_mem rfl .nil
    | interface => exact typeRests_of_parts (.interface [] []) rfl .nil directive_mem rfl .nil
    | union => exact typeRests_of_parts (.union []) rfl .nil directive_mem rfl .nil
    | enum => exact typeRests_of_parts (.enum []) rfl .nil directive_mem rfl .nil
    | inputObject => exact typeRests_of_parts (.inputObject []) rfl .nil directive_mem rfl .nil

/-- Extensions with legal trees. -/
abbrev Extensions (levels : Nat) : Spelling :=
  Legally true levels (Definition.spelling .free) fun d => [d.tree]

theorem extensions_of_schema {ks : List TokenKind}
    (h : ks ∈ keyword "extend" * (keyword "schema" * SchemaAdditions levels)) :
    ks ∈ Extensions levels := by
  obtain ⟨_, extend, _, ⟨_, word, _, ⟨⟨_, ⟨ds, applied, legal_ds⟩, _, ⟨ts, listed, legal_ts⟩, rfl⟩,
    some_token⟩, rfl⟩, rfl⟩ := h
  have additions : ds ≠ [] ∨ ts ≠ [] := by
    by_contra none
    obtain ⟨rfl, rfl⟩ : ds = [] ∧ ts = [] := by simpa [not_or] using none
    exact some_token (List.append_eq_nil_iff.mpr ⟨applied, listed⟩)
  refine ⟨.schemaExtension ⟨none, ds, ts⟩, ?_, (Node.schemaExtension ⟨none, ds, ts⟩).legal_flat rfl
    rfl ⟨legal_ds.isConst, additions⟩ (legal_ds.append legal_ts)⟩
  rw [Definition.spelling, SchemaExtension.spelling, mul_assoc, mul_assoc]
  exact Language.append_mem_mul extend (Language.append_mem_mul word
    (Language.append_mem_mul applied listed))

theorem extensions_of_type {form : TypeForm} {ks : List TokenKind}
    (h : ks ∈ keyword "extend" * (keyword form.keyword * TypeAdditions levels form)) :
    ks ∈ Extensions levels := by
  obtain ⟨_, extend, _, ⟨_, word, _, ⟨_, ⟨n, named, legal_n⟩, _,
    ⟨⟨ds, body, rfl, spelled, legal⟩, some_token⟩, rfl⟩, rfl⟩, rfl⟩ := h
  have additions : ds ≠ [] ∨ body.leadingTrees ≠ [] ∨ body.trailingTrees ≠ [] := by
    by_contra none
    obtain ⟨rfl, empty⟩ : ds = [] ∧ body.isEmpty = true := by
      simpa [not_or, TypeBody.isEmpty_iff] using none
    obtain ⟨leading, trailing⟩ := spelling_of_isEmpty empty
    rw [leading, trailing, row_nil, one_mul, one_mul] at spelled
    exact some_token spelled
  have constant : AllConst ds := fun d hd => (legal d.tree (by simp; grind)).isConst
  refine ⟨.typeExtension ⟨none, n, ds, body⟩, ?_, (Node.typeExtension ⟨none, n, ds, body⟩).legal_flat
    rfl rfl ⟨constant, additions⟩ ?_⟩
  · rw [Definition.spelling, TypeExtension.spelling, typeSpelling]
    simp only [mul_assoc] at spelled ⊢
    exact Language.append_mem_mul extend (Language.append_mem_mul word
      (Language.append_mem_mul named spelled))
  · simpa only [List.append_assoc] using legal_n.append legal

/-- The word after `extend` tells of what; if it is not one of those, it is the token that does not
fit. -/
theorem extension_viableAt (whole : c.Whole) (kind : c.current.kind = .name "extend") :
    ViableAt (Defines (levels + 1)) (Extensions (levels + 1)) c
      (extension (m := Parser) (levels + 1) c) := by
  obtain ⟨c₁, first, steps⟩ := whole.consume (by simp [kind])
  have whole₁ := steps.whole whole
  have closed : LeavesOpen (kinds [c.current]) [] := by simpa [kind] using .flat rfl
  have passes : Passes (keyword "extend") c c₁ := ⟨_, steps, by simp [kind], closed⟩
  have additions {p : Parser Definition} {A : Spelling} {text : String}
      (word : c₁.current.kind = .name text) (p_viable : Viable (Defines (levels + 1)) p A) :
      ViableAt (Defines (levels + 1)) (keyword "extend" * (keyword text * A)) c
        ((consume >>= fun _ => consume >>= fun _ => p) c) := by
    rw [bind_eq first]
    exact .after passes (.seq whole₁ (.consume whole₁ word (by simp) rfl)
      (fun _ _ _ whole₂ => p_viable.run whole₂)
      (fun _ _ _ _ _ holds => Condition.TailClosed.tail holds) fun _ _ holds => p_viable.blank holds)
      fun _ _ _ _ _ holds => Condition.TailClosed.tail holds
  have misfit : ViableAt (Defines (levels + 1)) (Extensions (levels + 1)) c
      ((unexpectedAt c₁.current (some .extension) : Parser Definition) c) := by
    refine fun _ => ⟨[c.current], c₁, [], steps, ⟨by rw [steps.source], _, rfl⟩, closed, fun _ => ?_⟩
    have later : Completes (keyword "schema" * SchemaAdditions (levels + 1)) [] :=
      (Completes.keyword (by decide)).mul ((schemaExtension_viable c.current.start).blank Defines.nil)
    have first : kinds [c.current] ∈ keyword "extend" := by simp [kind]
    exact (Completes.after first later).mono fun _ => extensions_of_schema
  simp only [extension, lifted_self]
  rw [here_bind, bind_eq steps.lookahead]
  cases known : DefinitionKeyword.ofToken? c₁.current.kind with
  | none => exact misfit
  | some w =>
    have word := DefinitionKeyword.ofToken?_eq_some known
    cases w with
    | schema =>
      exact (additions word (schemaExtension_viable c.current.start).map).mono
        (fun _ => extensions_of_schema) fun _ _ => id
    | type form =>
      exact (additions word (typeExtension_viable c.current.start form).map).mono
        (fun _ => extensions_of_type) fun _ _ => id
    | _ => exact misfit

/-! ### All definitions -/

/-- Fewer than so many levels are open, and no variable is begun where none may be used. -/
def Proper (levels : Nat) : Condition := fun ks _ =>
  nestingAfter ks < levels ∧ ∀ us, ks = us ++ [.punctuator .dollar] → ¬ ConstAfter us

/-- Definitions with legal trees. -/
abbrev Definitions (levels : Nat) : Spelling :=
  Legally false levels (Definition.spelling .free) fun d => [d.tree]

/-- Tokens that have been read start with the one that a run started at. -/
theorem ViableAt.leading {α : Type} {ok' : Condition} {L : Spelling}
    {x : Except SyntaxError (α × Cursor)} (h : ViableAt ok' L c x)
    (weaker : ∀ ks opened, (∀ k ∈ ks.head?, k = c.current.kind) → unclosed ks = some opened →
      ok ks opened → ok' ks opened) : ViableAt ok L c x := by
  match x, h with
  | .ok (a, c'), passes => exact passes
  | .error e, halts =>
    intro unexpected
    obtain ⟨ts, c', opened, steps, misfit, leaves, completes⟩ := halts unexpected
    refine ⟨ts, c', opened, steps, misfit, leaves, fun holds => completes ?_⟩
    refine weaker _ _ ?_ leaves.unclosed holds
    intro k hk
    cases ts with
    | nil => simp at hk
    | cons t ts =>
      have first := steps.head? (by simp)
      simp_all

/-- The rules for executable definitions, where one starts. -/
theorem ViableAt.executes {α : Type} {L : Spelling} {x : Except SyntaxError (α × Cursor)}
    (first : startsExecutable [c.current.kind] = true)
    (h : ViableAt (Executes (levels + 1)) L c x) : ViableAt (Proper (levels + 1)) L c x := by
  refine h.leading fun ks opened head unclosed ⟨deep, begun⟩ => ⟨?_, fun us last => ?_⟩
  · cases ks with
    | nil =>
      obtain rfl : [] = opened := Option.some.inj unclosed
      simp
    | cons k ks =>
      have starts : startsExecutable (k :: ks) = true := head k rfl ▸ first
      simpa [nestingAfter, unclosed, starts] using deep
  · exact fun declares => begun us last (.inr declares)

/-- The rules for other definitions, where one starts. -/
theorem ViableAt.defines {α : Type} {L : Spelling} {x : Except SyntaxError (α × Cursor)}
    (first : startsExecutable [c.current.kind] = false)
    (h : ViableAt (Defines levels) L c x) : ViableAt (Proper levels) L c x := by
  refine h.leading fun ks opened head unclosed ⟨deep, begun⟩ => ⟨?_, fun last => ?_⟩
  · have starts : startsExecutable ks = false := by
      cases ks with
      | nil => rfl
      | cons k ks => exact head k rfl ▸ first
    simpa [nestingAfter, unclosed, starts] using deep
  · obtain ⟨us, rfl⟩ := List.getLast?_eq_some_iff.mp last
    refine begun us rfl (.inl ?_)
    cases us with
    | nil => rfl
    | cons k us => exact head k rfl ▸ first

theorem startsExecutable_string {k : TokenKind} (string : k.isString = true) :
    startsExecutable [k] = false := by
  cases k <;> simp_all [TokenKind.isString, startsExecutable, DefinitionKeyword.ofToken?]

theorem startsExecutable_keyword {k : TokenKind} {w : DefinitionKeyword}
    (known : DefinitionKeyword.ofToken? k = some w) :
    startsExecutable [k] = match w with
      | .operation _ | .fragment => true
      | _ => false := by
  have kind := DefinitionKeyword.ofToken?_eq_some known
  subst kind
  cases w <;> simp [startsExecutable, known]

/-- Each sort of definition spells definitions. -/
theorem mem_definitions {α : Type} {const : Bool} {spelling : α → Spelling} {tree : α → Tree Node}
    (sort : α → Definition) (spells : ∀ a, (sort a).spelling .free = spelling a)
    (trees : ∀ a, (sort a).tree = tree a) :
    ∀ ks ∈ Legally const levels spelling fun a => [tree a], ks ∈ Definitions levels := by
  rintro ks ⟨a, spelled, legal⟩
  have legal' : AllLegal false levels [tree a] := by
    cases const with
    | false => exact legal
    | true => exact legal.relax
  exact ⟨sort a, by rwa [spells], by rwa [← trees] at legal'⟩

theorem completes_definitions : Completes (Definitions (levels + 1)) [] := by
  have proper : Executes (levels + 1) [] [] := ⟨by simp, by simp⟩
  exact (operation_viable.blank proper).mono
    (mem_definitions .operation (fun _ => rfl) fun _ => rfl)

theorem definitionBy_viableAt {t : Token} (whole : c.Whole) (leads : Leads c t) :
    ViableAt (Proper (levels + 1)) (Definitions (levels + 1)) c
      (definitionBy (m := Parser) (levels + 1) c.current t c) := by
  simp only [definitionBy, lifted_self]
  split
  · exact fun unexpected => absurd unexpected id
  · next fitting =>
    cases known : DefinitionKeyword.ofToken? t.kind with
    | none => exact .unexpected fun _ _ _ => completes_definitions
    | some w =>
      have kind := DefinitionKeyword.ofToken?_eq_some known
      have bare (plain : w.isDescribable = false) : c.current = t := by
        refine leads.bare ?_
        simpa [known, plain] using fitting
      have defines (other : startsExecutable [t.kind] = false) :
          startsExecutable [c.current.kind] = false := by
        cases string : c.current.kind.isString with
        | true => exact startsExecutable_string string
        | false => rwa [leads.bare string]
      cases w with
      | operation k =>
        have first : startsExecutable [c.current.kind] = true := by
          rw [bare rfl, startsExecutable_keyword known]
        exact ((operation_viable.map.run whole).executes first).mono
          (mem_definitions .operation (fun _ => rfl) fun _ => rfl) fun _ _ => id
      | fragment =>
        have first : startsExecutable [c.current.kind] = true := by
          rw [bare rfl, startsExecutable_keyword known]
        have read : Viable (Executes (levels + 1)) (fragment (levels + 1)) _ :=
          fragment_viable.mono (fun _ => id) fun _ _ => Executes.clear
        exact ((read.map.run whole).executes first).mono
          (mem_definitions .fragment (fun _ => rfl) fun _ => rfl) fun _ _ => id
      | schema =>
        have first := defines (startsExecutable_keyword known)
        exact ((schemaDefinition_viable.map.run whole).defines first).mono
          (mem_definitions .schema (fun _ => rfl) fun _ => rfl) fun _ _ => id
      | directive =>
        have first := defines (startsExecutable_keyword known)
        exact ((directiveDefinition_viable.map.run whole).defines first).mono
          (mem_definitions .directive (fun _ => rfl) fun _ => rfl) fun _ _ => id
      | extend =>
        have first := defines (startsExecutable_keyword known)
        exact ((extension_viableAt whole (bare rfl ▸ kind)).defines first).mono
          (mem_definitions id (fun _ => rfl) fun _ => rfl) fun _ _ => id
      | type form =>
        have first := defines (startsExecutable_keyword known)
        exact ((typeDefinition_viableAt whole leads kind).map.defines first).mono
          (mem_definitions .type (fun _ => rfl) fun _ => rfl) fun _ _ => id

theorem definition_viable :
    Viable (Proper (levels + 1)) (definition (levels + 1)) (Definitions (levels + 1)) where
  run c whole := by
    simp only [definition, lifted_self]
    rw [peek_bind]
    split
    · next brace =>
      have first : startsExecutable [c.current.kind] = true := by simp [startsExecutable, brace]
      exact ((operation_viable.map.run whole).executes first).mono
        (mem_definitions .operation (fun _ => rfl) fun _ => rfl) fun _ _ => id
    · split
      · next string =>
        have more : c.current.kind ≠ .endOfInput := by
          intro kind
          simp [kind, TokenKind.isString] at string
        obtain ⟨c₁, first, steps⟩ := whole.consume more
        rw [bind_eq steps.lookahead]
        refine definitionBy_viableAt whole ⟨fun _ u c' ran => ?_, by simp [string]⟩
        rw [first] at ran
        cases ran
        rfl
      · next plain =>
        exact definitionBy_viableAt whole ⟨by simp [plain], fun _ => rfl⟩
  blank _ _ _ := completes_definitions

end GraphQL.Parser
