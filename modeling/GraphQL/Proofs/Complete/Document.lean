import GraphQL.Proofs.Complete.TypeSystem

/-! The parser of documents gives back what a spelling was made from: the keyword of a definition,
after its description if there is one, tells which parser is to read it. -/
namespace GraphQL

/-- The word that tells what a definition is. -/
def Definition.keyword : Definition → DefinitionKeyword
  | .operation d => .operation d.kind
  | .fragment _ => .fragment
  | .schema _ => .schema
  | .schemaExtension _ | .typeExtension _ => .extend
  | .type d => .type d.body.form
  | .directive _ => .directive

/-- The description of a definition, where it can have one. -/
def Definition.description : Definition → Option StringValue
  | .schema d => d.description
  | .type d => d.description
  | .directive d => d.description
  | _ => none

namespace DefinitionKeyword

@[simp] theorem ofToken?_text (w : DefinitionKeyword) : ofToken? (.name w.text) = some w := by
  cases w with
  | operation kind => cases kind <;> decide
  | type form => cases form <;> decide
  | _ => decide

theorem text_ne_implements (w : DefinitionKeyword) : w.text ≠ "implements" := by
  cases w with
  | operation kind => cases kind <;> decide
  | type form => cases form <;> decide
  | _ => decide

end DefinitionKeyword

namespace Parser

open Spelling

variable {style : Style} {levels : Nat} {bad ks rest : List TokenKind} {c : Cursor}

theorem lookahead_faces {k k' : TokenKind} (faces : c.Faces (k :: k' :: ks)) :
    ∃ t, lookahead c = .ok (t, c) ∧ t.kind = k' := by
  have pending := faces.pending
  simp only [Cursor.pending, List.map_cons, List.cons.injEq] at pending
  obtain ⟨t, ts, upcoming⟩ := List.exists_cons_of_ne_nil
    (fun none => by simp [none] at pending : c.upcoming ≠ [])
  rw [upcoming] at pending
  simp only [List.map_cons, List.cons.injEq] at pending
  refine ⟨t, ?_, pending.2.1⟩
  simp only [lookahead, upcoming]

theorem lead_alone {text : String} {later : Spelling} (spelled : ks ∈ keyword text * later) :
    ∃ first ∈ descriptionSpelling none, ∃ last, ks = first ++ .name text :: last := by
  rw [mem_word_mul] at spelled
  obtain ⟨last, -, rfl⟩ := spelled
  exact ⟨[], rfl, last, rfl⟩

theorem lead_described {o : Option StringValue} {text : String} {later : Spelling}
    (spelled : ks ∈ descriptionSpelling o * (keyword text * later)) :
    ∃ first ∈ descriptionSpelling o, ∃ last, ks = first ++ .name text :: last := by
  rw [Language.mem_mul] at spelled
  obtain ⟨first, described, _, spelled, rfl⟩ := spelled
  rw [mem_word_mul] at spelled
  obtain ⟨last, -, rfl⟩ := spelled
  exact ⟨first, described, last, rfl⟩

/-- A definition starts with its keyword, or with a description before that. In free texts the
keyword of an operation can be missing. -/
theorem definition_leads {d : Definition} (spelled : ks ∈ d.spelling style) :
    (∃ first ∈ descriptionSpelling d.description, ∃ last,
      ks = first ++ .name d.keyword.text :: last) ∨
    style = .free ∧ ∃ o later, d = .operation o ∧ ks = .punctuator .openBrace :: later := by
  cases d with
  | operation d =>
    obtain spelled | ⟨free, -, selected⟩ := spelled
    · simp only [mul_assoc] at spelled
      exact .inl (lead_alone spelled)
    · rw [SelectionSet.spelling_eq, mul_assoc, mem_word_mul] at selected
      obtain ⟨later, -, rfl⟩ := selected
      exact .inr ⟨free, d, later, rfl, rfl⟩
  | fragment d =>
    simp only [Definition.spelling, FragmentDefinition.spelling, mul_assoc] at spelled
    exact .inl (lead_alone spelled)
  | schema d =>
    simp only [Definition.spelling, SchemaDefinition.spelling, mul_assoc] at spelled
    exact .inl (lead_described spelled)
  | schemaExtension d =>
    simp only [Definition.spelling, SchemaExtension.spelling, mul_assoc] at spelled
    exact .inl (lead_alone spelled)
  | type d =>
    simp only [Definition.spelling, TypeDefinition.spelling, mul_assoc] at spelled
    exact .inl (lead_described spelled)
  | typeExtension d =>
    simp only [Definition.spelling, TypeExtension.spelling, mul_assoc] at spelled
    exact .inl (lead_alone spelled)
  | directive d =>
    simp only [Definition.spelling, DirectiveDefinition.spelling, mul_assoc] at spelled
    exact .inl (lead_described spelled)

/-- What follows a definition does not go on with it. -/
theorem follows_definition {d : Definition} (spelled : ks ∈ d.spelling .plain) :
    Follows (.endOfInput :: typeContinuations) ks := by
  obtain ⟨first, described, last, rfl⟩ | ⟨free, -⟩ := definition_leads spelled
  swap
  · cases free
  cases o : d.description with
  | none =>
    rw [o] at described
    cases (described : first = [])
    simp [typeContinuations, DefinitionKeyword.text_ne_implements]
  | some s =>
    rw [o] at described
    obtain ⟨k, ⟨cooked, -⟩, rfl⟩ := mem_oneOf.mp described
    cases k <;> simp [TokenKind.stringValue?] at cooked
    all_goals simp [typeContinuations]

/-- Definitions that can have a description start with a keyword that allows one. -/
theorem isDescribable_keyword {d : Definition} {s : StringValue}
    (described : d.description = some s) : d.keyword.isDescribable = true := by
  cases d <;> first | rfl | cases described

theorem definition_eq {d : Definition} (spelled : ks ∈ descriptionSpelling d.description)
    (faces : c.Faces (ks ++ .name d.keyword.text :: rest)) :
    definition (m := Parser) levels c = definitionAt (m := Parser) levels d.keyword c := by
  simp only [definition, definitionBy, lifted_self]
  rw [peek_bind]
  cases o : d.description with
  | none =>
    rw [o] at spelled
    cases (spelled : ks = [])
    have kind : c.current.kind = .name d.keyword.text := faces.kind
    rw [if_neg (by simp [kind]), kind, if_neg (by simp [TokenKind.isString]),
      peek_bind]
    simp only [kind, DefinitionKeyword.ofToken?_text]
    cases d.keyword <;> rfl
  | some s =>
    rw [o] at spelled
    obtain ⟨k, ⟨cooked, -⟩, rfl⟩ := mem_oneOf.mp spelled
    have kind : c.current.kind = k := faces.kind
    have string : k.isString = true := by
      cases k <;> simp [TokenKind.stringValue?] at cooked <;> rfl
    obtain ⟨t, ahead, kind_t⟩ := lookahead_faces faces
    have describable := isDescribable_keyword o
    rw [if_neg (by rintro brace; simp [← kind, brace, TokenKind.isString] at string), kind,
      if_pos string, bind_eq ahead]
    simp only [kind_t, DefinitionKeyword.ofToken?_text, Option.any_some, describable,
      Bool.not_true, Bool.and_false]
    cases d.keyword <;> rfl

theorem schemaExtension_opens {d : SchemaExtension} (legal : d.tree.Legal false levels) :
    Restores (extension levels) typeContinuations d.spelling (Definition.schemaExtension d) := by
  intro ks spelled
  simp only [SchemaExtension.spelling, mul_assoc] at spelled
  simp only [mem_word_mul] at spelled
  obtain ⟨_, ⟨last, spelled, rfl⟩, rfl⟩ := spelled
  obtain ⟨words, -⟩ := schemaExtension_restores .first legal spelled
  have known : IsName "extend" ∧ IsName "schema" := by decide
  refine ⟨by simp [words, known], ?_⟩
  intro c rest faces follow
  simp only [List.cons_append] at faces
  obtain ⟨t, ahead, kind⟩ := lookahead_faces faces
  obtain ⟨c₁, extend, faces₁⟩ := consume_faces faces (by simp)
  obtain ⟨c₂, schema, faces₂⟩ := consume_faces faces₁ (follow.any last).ne_nil
  obtain ⟨d', c₃, read, same_d, faces₃⟩ :=
    (schemaExtension_restores c.current.start legal spelled).2 faces₂ follow
  refine ⟨.schemaExtension d', c₃, ?_, same_d, faces₃⟩
  have keyword : DefinitionKeyword.ofToken? t.kind = some .schema := by rw [kind]; rfl
  simp only [extension, lifted_self]
  rw [here_bind, bind_eq ahead, keyword]
  exact (bind_eq extend).trans ((bind_eq schema).trans (map_ok.mpr ⟨d', read, rfl⟩))

theorem typeExtension_opens {d : TypeExtension} (legal : d.tree.Legal false levels) :
    Restores (extension levels) typeContinuations (d.spelling style)
      (Definition.typeExtension d) := by
  intro ks spelled
  simp only [TypeExtension.spelling, mul_assoc] at spelled
  simp only [mem_word_mul] at spelled
  obtain ⟨_, ⟨last, spelled, rfl⟩, rfl⟩ := spelled
  obtain ⟨words, -⟩ := typeExtension_restores .first legal spelled
  have known : IsName "extend" := by decide
  refine ⟨by simp [words, known, isName_form], ?_⟩
  intro c rest faces follow
  simp only [List.cons_append] at faces
  obtain ⟨t, ahead, kind⟩ := lookahead_faces faces
  obtain ⟨c₁, extend, faces₁⟩ := consume_faces faces (by simp)
  obtain ⟨c₂, form, faces₂⟩ := consume_faces faces₁ (follow.any last).ne_nil
  obtain ⟨d', c₃, read, same_d, faces₃⟩ :=
    (typeExtension_restores c.current.start legal spelled).2 faces₂ follow
  refine ⟨.typeExtension d', c₃, ?_, same_d, faces₃⟩
  have keyword : DefinitionKeyword.ofToken? t.kind = some (.type d.body.form) := by
    rw [kind]
    exact DefinitionKeyword.ofToken?_text (.type d.body.form)
  simp only [extension, lifted_self]
  rw [here_bind, bind_eq ahead, keyword]
  exact (bind_eq extend).trans ((bind_eq form).trans (map_ok.mpr ⟨d', read, rfl⟩))

theorem definitionAt_restores {d : Definition} (legal : d.tree.Legal false levels) :
    Restores (definitionAt levels d.keyword) typeContinuations (d.spelling style) d := by
  cases d with
  | operation d =>
    have read : Restores (operation levels) [] (d.spelling style) d := operation_restores legal
    exact (read.map (f := Definition.operation) fun _ h => h).mono (by simp)
  | fragment d =>
    have read := (fragment_restores legal).map (f := Definition.fragment) fun _ h => h
    exact read.mono (by simp)
  | schema d =>
    have read := (schemaDefinition_restores legal).map (f := Definition.schema) fun _ h => h
    exact read.mono (by simp)
  | schemaExtension d => exact schemaExtension_opens legal
  | type d => exact (typeDefinition_restores legal).map (f := Definition.type) fun _ h => h
  | typeExtension d => exact typeExtension_opens legal
  | directive d =>
    have read : Restores (directiveDefinition levels) [.punctuator .pipe] (d.spelling style) d :=
      directiveDefinition_restores legal
    exact (read.map (f := Definition.directive) fun _ h => h).mono (by simp [typeContinuations])

theorem definition_restores {d : Definition} (legal : d.tree.Legal false levels) :
    Restores (definition levels) typeContinuations (d.spelling style) d := by
  intro ks spelled
  obtain ⟨words, run⟩ := definitionAt_restores legal spelled
  refine ⟨words, ?_⟩
  intro c rest faces follow
  obtain ⟨d', c', read, same_d, faces'⟩ := run faces follow
  refine ⟨d', c', ?_, same_d, faces'⟩
  rcases definition_leads spelled with ⟨first, described, last, rfl⟩ | ⟨-, o, later, rfl, rfl⟩
  · rw [List.append_assoc, List.cons_append] at faces
    rw [definition_eq described faces]
    exact read
  · simp only [definition, lifted_self]
    rw [peek_bind, if_pos faces.kind]
    exact read

theorem definitions_restores {ds : List Definition} (legal : ∀ d ∈ ds, d.tree.Legal false levels)
    (spelled : ks ∈ row (·.spelling .plain) ds) (faces : c.Faces (ks ++ [.endOfInput])) :
    ∃ ds' c', definitions (m := Parser) levels c = .ok (ds', c') ∧ same false ds' ds = true ∧
      c'.Faces [.endOfInput] := by
  have follow : Follows typeContinuations ([] ++ [.endOfInput]) := by simp [typeContinuations]
  refine collect_restores ?_ ?_ spelled faces follow
  · intro d hd ks spelled
    have start := follows_definition spelled
    refine ⟨start.mono (by simp +contextual), ?_⟩
    intro c rest faces follow
    obtain ⟨d', c', read, same_d, faces'⟩ :=
      (definition_restores (legal d hd) spelled).2 faces follow
    refine ⟨d', c', ?_, same_d, faces'⟩
    have more : c.current.kind ≠ .endOfInput := by
      intro at_end
      exact faces.kind_notMem (start.append_left rest) (by simp [at_end])
    rw [lifted_self, peek_bind, if_neg more, bind_eq read]
    rfl
  · intro c faces
    have at_end : c.current.kind = .endOfInput := faces.kind
    refine ⟨c, ?_, faces⟩
    rw [lifted_self, peek_bind, if_pos at_end]
    rfl

theorem document_restores {d : Document} (wellFormed : d.WellFormed levels)
    (spelled : ks ∈ d.spelling .plain) :
    AllWords ks ∧ ∀ ⦃c⦄, c.Faces (ks ++ [.endOfInput]) →
      ∃ d' c', document (m := Parser) levels c = .ok (d', c') ∧ same false d' d = true := by
  have legal : d.tree.Legal false levels :=
    Tree.legal_iff.mpr ⟨wellFormed.lawful, by simp, wellFormed.nesting⟩
  obtain ⟨ne, below⟩ := legal.flat rfl
  rw [List.forall_mem_map] at below
  obtain ⟨o, definitions⟩ := d
  obtain ⟨first, others, rfl⟩ := List.exists_cons_of_ne_nil ne
  rw [List.forall_mem_cons] at below
  rw [Document.spelling, row_cons, Language.mem_mul] at spelled
  obtain ⟨ks, spelled, later, spelled_others, rfl⟩ := spelled
  obtain ⟨words, run⟩ := definition_restores below.1 spelled
  have words' : AllWords later :=
    words_row (fun d hd _ spelled => (definition_restores (below.2 d hd) spelled).1) spelled_others
  refine ⟨by simp [words, words'], ?_⟩
  intro c faces
  rw [List.append_assoc] at faces
  have next : Follows typeContinuations (later ++ [.endOfInput]) := by
    refine .append (.row ?_ spelled_others) (by simp [typeContinuations])
    intro d _ ks spelled
    exact ((follows_definition spelled).mono (by simp +contextual)).avoids
  obtain ⟨d', c₁, read, same_d, faces₁⟩ := run faces next
  obtain ⟨ds', c₂, read_others, same_ds, -⟩ :=
    definitions_restores below.2 spelled_others faces₁
  refine ⟨⟨some ⟨c₂.source, .first, c₂.lastEnd⟩, d' :: ds'⟩, c₂, ?_, ?_⟩
  · simp only [document, lifted_self]
    rw [bind_eq read, bind_eq read_others]
    rfl
  · have same_all : same false (d' :: ds') (first :: others) = true := by simp [same_d, same_ds]
    exact same_all

end Parser
end GraphQL
