import GraphQL.Parser.TypeSystem
import GraphQL.Proofs.Complete.Executable

/-! The parsers of schemas, types, directives and extensions give back what a spelling was made
from. -/
namespace GraphQL

/-- Pairs are compared by their parts. -/
instance {α β : Type} [Comparable α] [Comparable β] : Comparable (α × β) where
  same origins a b := same origins a.1 b.1 && same origins a.2 b.2

@[simp] theorem same_pair {α β : Type} [Comparable α] [Comparable β] (origins : Bool) (a a' : α)
    (b b' : β) : same origins (a, b) (a', b') = (same origins a a' && same origins b b') := rfl

namespace Parser

open Spelling

variable {style : Style} {const : Bool} {levels : Nat} {bad ks rest : List TokenKind} {c : Cursor}

theorem words_description {o : Option StringValue} (spelled : ks ∈ descriptionSpelling o) :
    AllWords ks :=
  words_maybe (fun _ _ _ => words_string) spelled

/-- A description, or a name without one. -/
theorem description_faces {o : Option StringValue} {text : String}
    (spelled : ks ∈ descriptionSpelling o) (faces : c.Faces (ks ++ .name text :: rest)) :
    ∃ o' c', optionalString c = .ok (o', c') ∧ same false o' o = true ∧
      c'.Faces (.name text :: rest) := by
  cases o with
  | none =>
    cases (spelled : ks = [])
    refine ⟨none, c, ?_, rfl, faces⟩
    have kind : c.current.kind = .name text := faces.kind
    rw [optionalString, peek_bind, kind]
    rfl
  | some s =>
    obtain ⟨s', c', read, same_s, faces'⟩ := optionalString_faces spelled faces (by simp)
    exact ⟨some s', c', read, same_s, faces'⟩

/-- What may have a description does not start with a mark. -/
theorem follows_described {o : Option StringValue} {n : Name} {later : Spelling}
    (marks : ∀ k ∈ bad, ∃ m, k = .punctuator m)
    (spelled : ks ∈ descriptionSpelling o * (n.spelling * later)) : Follows bad ks := by
  rw [Language.mem_mul] at spelled
  obtain ⟨first, described, last, spelled, rfl⟩ := spelled
  cases o with
  | none =>
    cases (described : first = [])
    refine follows_word spelled ?_
    intro bad_name
    obtain ⟨m, h⟩ := marks _ bad_name
    cases h
  | some s =>
    obtain ⟨k, ⟨cooked, -⟩, rfl⟩ := mem_oneOf.mp described
    refine Follows.cons_iff.mpr ?_
    intro bad_string
    obtain ⟨m, rfl⟩ := marks _ bad_string
    simp [TokenKind.stringValue?] at cooked

theorem follows_namedType {t : NamedType} {m : Punctuator} (spelled : ks ∈ t.spelling) :
    Follows [.punctuator m] ks := by
  rw [NamedType.spelling, Name.spelling, mem_word] at spelled
  simp [spelled]

/-- Named types between marks, if a token introduces them. -/
theorem introduced_restores {opens : Parser Bool} {k : TokenKind} {m : Punctuator}
    {ts : List NamedType} (word : k.IsWord) (legal : ∀ t ∈ ts, t.tree.Legal const levels)
    (found : ∀ ⦃c ks⦄, c.Faces (k :: ks) → ks ≠ [] →
      ∃ c', opens c = .ok (true, c') ∧ c'.Faces ks)
    (missing : ∀ ⦃c ks⦄, c.Faces ks → Follows [k] ks → opens c = .ok (false, c)) :
    Restores (do if ← opens then Parser.separated m namedType else return [])
      [k, .punctuator m] (introduced style (Spelling.word k) m ts) ts := by
  intro ks spelled
  cases ts with
  | nil =>
    cases (spelled : ks = [])
    refine ⟨.nil, ?_⟩
    intro c rest faces follow
    refine ⟨[], c, ?_, rfl, faces⟩
    rw [bind_eq (missing faces (follow.mono (by simp))), if_neg (by simp)]
    rfl
  | cons t ts =>
    rw [introduced_cons, mem_word_mul] at spelled
    obtain ⟨later, spelled, rfl⟩ := spelled
    have all : Restores (Parser.separated m namedType) [.punctuator m]
        (Spelling.separated style m (·.spelling) (t :: ts)) (t :: ts) :=
      separated_restores (fun t ht => namedType_restores (legal t ht))
        (fun t _ _ => follows_namedType) (by simp) (by simp)
    obtain ⟨words, run⟩ := all spelled
    refine ⟨by simp [words, word], ?_⟩
    intro c rest faces follow
    obtain ⟨c₁, opened, faces₁⟩ := found faces (follow.any later).ne_nil
    obtain ⟨ts', c₂, read, same_ts, faces₂⟩ := run faces₁ (follow.mono (by simp))
    refine ⟨ts', c₂, ?_, same_ts, faces₂⟩
    rw [bind_eq opened, if_pos rfl]
    exact read

theorem interfaces_restores {ts : List NamedType} (legal : ∀ t ∈ ts, t.tree.Legal const levels) :
    Restores interfaces [.name "implements", .punctuator .ampersand]
      (introduced style (keyword "implements") .ampersand ts) ts := by
  apply introduced_restores (isWord_name.mpr (by decide)) legal
  · intro c ks faces more
    exact acceptKeyword_faces faces more
  · intro c ks faces follow
    exact acceptKeyword_none faces follow List.mem_cons_self

theorem members_restores (style : Style) {ts : List NamedType}
    (legal : ∀ t ∈ ts, t.tree.Legal const levels) :
    Restores members [.punctuator .equals, .punctuator .pipe]
      (introduced style (mark .equals) .pipe ts) ts := by
  apply introduced_restores (by simp) legal
  · intro c ks faces more
    exact accept_faces faces more
  · intro c ks faces follow
    exact accept_none faces follow List.mem_cons_self

theorem avoids_members {ts : List NamedType}
    (spelled : ks ∈ introduced style (mark .equals) .pipe ts) :
    Avoids [.punctuator .atSign, .punctuator .openParen] ks := by
  cases ts with
  | nil =>
    cases (spelled : ks = [])
    exact .nil
  | cons t ts =>
    rw [introduced_cons] at spelled
    exact (follows_word spelled (by simp)).avoids

theorem inputDefinition_restores {d : InputDefinition} (legal : d.tree.Legal const levels) :
    Restores (inputDefinition levels)
      [.punctuator .bang, .punctuator .equals, .punctuator .atSign, .punctuator .openParen]
      d.spelling d := by
  obtain ⟨⟨const_default, const_directives⟩, below⟩ := legal.flat rfl
  simp only [List.forall_mem_append, List.forall_mem_map, List.forall_mem_cons] at below
  obtain ⟨⟨⟨-, legal_n, legal_t, -⟩, legal_default⟩, legal_ds⟩ := below
  intro ks spelled
  simp only [InputDefinition.spelling, mul_assoc, Language.mem_mul, mem_word] at spelled
  obtain ⟨first, described, _, ⟨second, named, _, ⟨_, rfl, _, ⟨third, typed, _, ⟨fourth, defaulted,
    last, directed, rfl⟩, rfl⟩, rfl⟩, rfl⟩, rfl⟩ := spelled
  obtain ⟨words₂, run₂⟩ := name_restores legal_n named
  obtain ⟨words₃, run₃⟩ := typeRef_restores legal_t typed
  obtain ⟨words₄, run₄⟩ :=
    optionalDefault_restores .inputDefault (legal_constDefault legal_default const_default)
      defaulted
  obtain ⟨words₅, run₅⟩ :=
    constDirectives_restores (legal_constDirectives legal_ds const_directives) directed
  refine ⟨by simp [words_description described, words₂, words₃, words₄, words₅], ?_⟩
  intro c rest faces follow
  simp only [List.append_assoc, List.cons_append, List.nil_append] at faces
  have next₄ : Follows [.punctuator .bang, .punctuator .equals] (last ++ rest) :=
    .append (avoids_directives (by simp) directed) (follow.mono (by simp +contextual))
  have next₃ : Follows [.punctuator .bang] (fourth ++ (last ++ rest)) :=
    .append (avoids_default (by simp) defaulted) (next₄.mono (by simp))
  cases mem_word.mp named
  obtain ⟨s, c₁, read_description, same_s, faces₁⟩ := description_faces described faces
  obtain ⟨n, c₂, read_name, same_n, faces₂⟩ := run₂ faces₁ (by simp)
  obtain ⟨c₃, colon, faces₃⟩ := expect_faces faces₂ (next₃.any third).ne_nil
  obtain ⟨t, c₄, read_type, same_t, faces₄⟩ := run₃ faces₃ next₃
  obtain ⟨v, c₅, read_default, same_v, faces₅⟩ := run₄ faces₄ (next₄.mono (by simp))
  obtain ⟨ds, c₆, read_directives, same_ds, faces₆⟩ := run₅ faces₅ (follow.mono (by simp))
  refine ⟨⟨c.spanTo c₆, s, n, t, v, ds⟩, c₆, ?_, ?_, faces₆⟩
  · simp only [inputDefinition, lifted_self]
    rw [here_bind, bind_eq read_description, bind_eq read_name, bind_eq colon, bind_eq read_type,
      bind_eq read_default, bind_eq read_directives]
    rfl
  · simp only [same, sameOrigin_false, Bool.true_and, Bool.and_eq_true]
    exact ⟨⟨⟨⟨same_s, same_n⟩, same_t⟩, same_v⟩, same_ds⟩

theorem follows_inputDefinition {d : InputDefinition}
    (marks : ∀ k ∈ bad, ∃ m, k = .punctuator m) (spelled : ks ∈ d.spelling) : Follows bad ks := by
  simp only [InputDefinition.spelling, mul_assoc] at spelled
  exact follows_described marks spelled

theorem argumentDefinitions_restores {ds : List InputDefinition}
    (legal : ∀ d ∈ ds, d.tree.Legal const levels) :
    Restores (argumentDefinitions levels) [.punctuator .openParen] (argumentsSpelling ds) ds :=
  optionalMany_restores (fun d hd => inputDefinition_restores (legal d hd))
    (fun d _ _ => follows_inputDefinition (by simp)) (by simp)

theorem fieldDefinition_restores {d : FieldDefinition} (legal : d.tree.Legal const levels) :
    Restores (fieldDefinition levels)
      [.punctuator .bang, .punctuator .atSign, .punctuator .openParen] d.spelling d := by
  obtain ⟨const_directives, below⟩ := legal.flat rfl
  simp only [List.forall_mem_append, List.forall_mem_map, List.forall_mem_singleton] at below
  obtain ⟨⟨⟨⟨-, legal_n⟩, legal_as⟩, legal_t⟩, legal_ds⟩ := below
  intro ks spelled
  simp only [FieldDefinition.spelling, mul_assoc, Language.mem_mul, mem_word] at spelled
  obtain ⟨first, described, _, ⟨second, named, _, ⟨third, given, _, ⟨_, rfl, _, ⟨fourth, typed,
    last, directed, rfl⟩, rfl⟩, rfl⟩, rfl⟩, rfl⟩ := spelled
  obtain ⟨words₂, run₂⟩ := name_restores legal_n named
  obtain ⟨words₃, run₃⟩ := argumentDefinitions_restores legal_as given
  obtain ⟨words₄, run₄⟩ := typeRef_restores legal_t typed
  obtain ⟨words₅, run₅⟩ :=
    constDirectives_restores (legal_constDirectives legal_ds const_directives) directed
  refine ⟨by simp [words_description described, words₂, words₃, words₄, words₅], ?_⟩
  intro c rest faces follow
  simp only [List.append_assoc, List.cons_append, List.nil_append] at faces
  have next₄ : Follows [.punctuator .bang] (last ++ rest) :=
    .append (avoids_directives (by simp) directed) (follow.mono (by simp +contextual))
  have next₃ : Follows [] (.punctuator .colon :: (fourth ++ (last ++ rest))) := by simp
  cases mem_word.mp named
  obtain ⟨s, c₁, read_description, same_s, faces₁⟩ := description_faces described faces
  obtain ⟨n, c₂, read_name, same_n, faces₂⟩ := run₂ faces₁ (next₃.any third)
  obtain ⟨as, c₃, read_arguments, same_as, faces₃⟩ := run₃ faces₂ (by simp)
  obtain ⟨c₄, colon, faces₄⟩ := expect_faces faces₃ (next₄.any fourth).ne_nil
  obtain ⟨t, c₅, read_type, same_t, faces₅⟩ := run₄ faces₄ next₄
  obtain ⟨ds, c₆, read_directives, same_ds, faces₆⟩ := run₅ faces₅ (follow.mono (by simp))
  refine ⟨⟨c.spanTo c₆, s, n, as, t, ds⟩, c₆, ?_, ?_, faces₆⟩
  · simp only [fieldDefinition, lifted_self]
    rw [here_bind, bind_eq read_description, bind_eq read_name, bind_eq read_arguments,
      bind_eq colon, bind_eq read_type, bind_eq read_directives]
    rfl
  · simp only [same, sameOrigin_false, Bool.true_and, Bool.and_eq_true]
    exact ⟨⟨⟨⟨same_s, same_n⟩, same_as⟩, same_t⟩, same_ds⟩

theorem follows_fieldDefinition {d : FieldDefinition}
    (marks : ∀ k ∈ bad, ∃ m, k = .punctuator m) (spelled : ks ∈ d.spelling) : Follows bad ks := by
  simp only [FieldDefinition.spelling, mul_assoc] at spelled
  exact follows_described marks spelled

theorem enumValueDefinition_restores {d : EnumValueDefinition}
    (legal : d.tree.Legal const levels) :
    Restores (enumValueDefinition levels) [.punctuator .atSign, .punctuator .openParen]
      d.spelling d := by
  obtain ⟨⟨free, const_directives⟩, below⟩ := legal.flat rfl
  simp only [List.forall_mem_append, List.forall_mem_map, List.forall_mem_singleton] at below
  obtain ⟨⟨-, legal_n⟩, legal_ds⟩ := below
  intro ks spelled
  simp only [EnumValueDefinition.spelling, mul_assoc, Language.mem_mul] at spelled
  obtain ⟨first, described, _, ⟨second, named, last, directed, rfl⟩, rfl⟩ := spelled
  have read_value : Restores (unreservedName .enumValue) [] _ d.name :=
    unreservedName_restores legal_n free
  obtain ⟨words₂, run₂⟩ := read_value named
  obtain ⟨words₃, run₃⟩ :=
    constDirectives_restores (legal_constDirectives legal_ds const_directives) directed
  refine ⟨by simp [words_description described, words₂, words₃], ?_⟩
  intro c rest faces follow
  simp only [List.append_assoc] at faces
  cases mem_word.mp named
  obtain ⟨s, c₁, read_description, same_s, faces₁⟩ := description_faces described faces
  obtain ⟨n, c₂, read_name, same_n, faces₂⟩ := run₂ faces₁ (follow.any last)
  obtain ⟨ds, c₃, read_directives, same_ds, faces₃⟩ := run₃ faces₂ follow
  refine ⟨⟨c.spanTo c₃, s, n, ds⟩, c₃, ?_, ?_, faces₃⟩
  · simp only [enumValueDefinition, lifted_self]
    rw [here_bind, bind_eq read_description, bind_eq read_name, bind_eq read_directives]
    rfl
  · simp only [same, sameOrigin_false, Bool.true_and, Bool.and_eq_true]
    exact ⟨⟨same_s, same_n⟩, same_ds⟩

theorem follows_enumValueDefinition {d : EnumValueDefinition}
    (marks : ∀ k ∈ bad, ∃ m, k = .punctuator m) (spelled : ks ∈ d.spelling) : Follows bad ks := by
  simp only [EnumValueDefinition.spelling, mul_assoc] at spelled
  exact follows_described marks spelled

/-- The tokens that go on with a type. -/
def typeContinuations : List TokenKind :=
  [.name "implements", .punctuator .ampersand, .punctuator .atSign, .punctuator .openParen,
    .punctuator .openBrace, .punctuator .equals, .punctuator .pipe]

/-- Directives and the rest of a type after them. -/
theorem directed_restores {α : Type} [Comparable α] {p : Parser α} {spelling : Spelling} {a : α}
    {ds : List Directive} (read : Restores p bad spelling a)
    (avoids : ∀ ks ∈ spelling, Avoids [.punctuator .atSign, .punctuator .openParen] ks)
    (sub : ∀ k ∈ bad, k ∈ typeContinuations) (legal : ∀ d ∈ ds, d.tree.Legal true levels) :
    Restores (do return (← constDirectives levels, ← p)) typeContinuations
      (row (·.spelling) ds * spelling) (ds, a) := by
  intro ks spelled
  rw [Language.mem_mul] at spelled
  obtain ⟨first, directed, last, spelled, rfl⟩ := spelled
  obtain ⟨words, run⟩ := constDirectives_restores legal directed
  obtain ⟨words', run'⟩ := read spelled
  refine ⟨by simp [words, words'], ?_⟩
  intro c rest faces follow
  rw [List.append_assoc] at faces
  have next : Follows [.punctuator .atSign, .punctuator .openParen] (last ++ rest) :=
    .append (avoids last spelled) (follow.mono (by simp [typeContinuations]))
  obtain ⟨ds', c₁, read_directives, same_ds, faces₁⟩ := run faces next
  obtain ⟨a', c₂, read_rest, same_a, faces₂⟩ := run' faces₁ (follow.mono sub)
  refine ⟨(ds', a'), c₂, ?_, by simp [same_ds, same_a], faces₂⟩
  rw [bind_eq read_directives, bind_eq read_rest]
  rfl

theorem bracedBody_restores {α : Type} [Comparable α] {item : Parser α} {spelling : α → Spelling}
    {as : List α} {ds : List Directive} (items : ∀ a ∈ as, Restores item bad (spelling a) a)
    (begins : ∀ a ∈ as, ∀ ks ∈ spelling a, Follows (.punctuator .closeBrace :: bad) ks)
    (closes : .punctuator .closeBrace ∉ bad) (legal : ∀ d ∈ ds, d.tree.Legal true levels) :
    Restores (do return (← constDirectives levels, ← braced item)) typeContinuations
      (row (·.spelling) ds * block .openBrace .closeBrace spelling as) (ds, as) :=
  directed_restores (optionalMany_restores items begins closes) (fun _ => .block (by simp))
    (by simp [typeContinuations]) legal

/-- Interfaces, directives and fields. -/
theorem outputBody_restores (style : Style) {is : List NamedType} {fields : List FieldDefinition}
    {ds : List Directive} (legal_is : ∀ t ∈ is, t.tree.Legal const levels)
    (legal_ds : ∀ d ∈ ds, d.tree.Legal true levels)
    (legal_fields : ∀ f ∈ fields, f.tree.Legal const levels) :
    Restores
      (do return (← interfaces, ← constDirectives levels, ← braced (fieldDefinition levels)))
      typeContinuations
      (introduced style (keyword "implements") .ampersand is *
        (row (·.spelling) ds * block .openBrace .closeBrace (·.spelling) fields))
      (is, ds, fields) := by
  have body := bracedBody_restores (fun f hf => fieldDefinition_restores (legal_fields f hf))
    (fun f _ _ => follows_fieldDefinition (by simp)) (by simp) legal_ds
  intro ks spelled
  rw [Language.mem_mul] at spelled
  obtain ⟨first, implemented, last, spelled, rfl⟩ := spelled
  obtain ⟨words, run⟩ := interfaces_restores legal_is implemented
  obtain ⟨words', run'⟩ := body spelled
  refine ⟨by simp [words, words'], ?_⟩
  intro c rest faces follow
  rw [List.append_assoc] at faces
  have next : Follows [.name "implements", .punctuator .ampersand] (last ++ rest) := by
    refine .append (.mul (fun ks => avoids_directives (by simp)) (fun ks => .block (by simp))
      spelled) (follow.mono ?_)
    simp [typeContinuations]
  obtain ⟨is', c₁, read_interfaces, same_is, faces₁⟩ := run faces next
  obtain ⟨⟨ds', fields'⟩, c₂, read_body, same_body, faces₂⟩ := run' faces₁ follow
  rw [same_pair, Bool.and_eq_true] at same_body
  refine ⟨(is', ds', fields'), c₂, ?_, by simp [same_is, same_body], faces₂⟩
  simp only [bind_ok, pure_ok, Prod.mk.injEq] at read_body
  obtain ⟨_, c₃, read_directives, _, c₄, read_fields, ⟨rfl, rfl⟩, rfl⟩ := read_body
  rw [bind_eq read_interfaces, bind_eq read_directives, bind_eq read_fields]
  rfl

theorem same_outputBody {is : List NamedType} {fields : List FieldDefinition}
    {ds : List Directive} {r : List NamedType × List Directive × List FieldDefinition}
    (h : same false r (is, ds, fields) = true) :
    (same false r.2.1 ds && (same false r.1 is && same false r.2.2 fields)) = true := by
  obtain ⟨is', ds', fields'⟩ := r
  simp only [same_pair, Bool.and_eq_true] at h ⊢
  exact ⟨h.2.1, h.1, h.2.2⟩

theorem typeBody_restores {body : TypeBody} {ds : List Directive}
    (legal_leading : ∀ t ∈ body.leadingTrees, t.Legal const levels)
    (legal_ds : ∀ d ∈ ds, d.tree.Legal true levels)
    (legal_trailing : ∀ t ∈ body.trailingTrees, t.Legal const levels) :
    Restores (typeBody levels body.form) typeContinuations
      (body.leadingSpelling style * (row (·.spelling) ds * body.trailingSpelling style))
      (ds, body) := by
  cases body with
  | scalar =>
    have read : Restores (constDirectives levels) typeContinuations _ ds :=
      (constDirectives_restores legal_ds).mono (by simp [typeContinuations])
    have whole := read.map (f := fun ds => (ds, TypeBody.scalar))
      fun _ same_ds => Bool.and_eq_true_iff.mpr ⟨same_ds, rfl⟩
    simpa [typeBody, TypeBody.form, TypeBody.leadingSpelling, TypeBody.trailingSpelling] using whole
  | object is fields =>
    simp only [TypeBody.leadingTrees, TypeBody.trailingTrees, List.forall_mem_map]
      at legal_leading legal_trailing
    have read := (outputBody_restores style legal_leading legal_ds legal_trailing).map
      (f := fun r => (r.2.1, TypeBody.object r.1 r.2.2)) fun _ => same_outputBody
    simpa [typeBody, TypeBody.form, TypeBody.leadingSpelling, TypeBody.trailingSpelling] using read
  | interface is fields =>
    simp only [TypeBody.leadingTrees, TypeBody.trailingTrees, List.forall_mem_map]
      at legal_leading legal_trailing
    have read := (outputBody_restores style legal_leading legal_ds legal_trailing).map
      (f := fun r => (r.2.1, TypeBody.interface r.1 r.2.2)) fun _ => same_outputBody
    simpa [typeBody, TypeBody.form, TypeBody.leadingSpelling, TypeBody.trailingSpelling] using read
  | union ms =>
    simp only [TypeBody.trailingTrees, List.forall_mem_map] at legal_trailing
    have read := (directed_restores (members_restores style legal_trailing) (fun _ => avoids_members)
      (by simp [typeContinuations]) legal_ds).map (f := fun r => (r.1, TypeBody.union r.2))
      fun _ same_r => same_r
    simpa [typeBody, TypeBody.form, TypeBody.leadingSpelling, TypeBody.trailingSpelling] using read
  | enum values =>
    simp only [TypeBody.trailingTrees, List.forall_mem_map] at legal_trailing
    have read := (bracedBody_restores
      (fun v hv => enumValueDefinition_restores (legal_trailing v hv))
      (fun v _ _ => follows_enumValueDefinition (by simp)) (by simp) legal_ds).map
      (f := fun r => (r.1, TypeBody.enum r.2)) fun _ same_r => same_r
    simpa [typeBody, TypeBody.form, TypeBody.leadingSpelling, TypeBody.trailingSpelling] using read
  | inputObject fields =>
    simp only [TypeBody.trailingTrees, List.forall_mem_map] at legal_trailing
    have read := (bracedBody_restores
      (fun f hf => inputDefinition_restores (legal_trailing f hf))
      (fun f _ _ => follows_inputDefinition (by simp)) (by simp) legal_ds).map
      (f := fun r => (r.1, TypeBody.inputObject r.2)) fun _ same_r => same_r
    simpa [typeBody, TypeBody.form, TypeBody.leadingSpelling, TypeBody.trailingSpelling] using read

theorem isName_form (form : TypeForm) : IsName form.keyword := by cases form <;> decide

theorem typeDefinition_restores {d : TypeDefinition} (legal : d.tree.Legal const levels) :
    Restores (typeDefinition levels d.body.form) typeContinuations (d.spelling style) d := by
  obtain ⟨const_directives, below⟩ := legal.flat rfl
  simp only [List.forall_mem_append, List.forall_mem_map, List.forall_mem_singleton] at below
  obtain ⟨⟨⟨⟨-, legal_n⟩, legal_leading⟩, legal_ds⟩, legal_trailing⟩ := below
  have shape : d.spelling style = descriptionSpelling d.description *
      (keyword d.body.form.keyword * (d.name.spelling * (d.body.leadingSpelling style *
        (row (·.spelling) d.directives * d.body.trailingSpelling style)))) := by
    simp only [TypeDefinition.spelling, typeSpelling, mul_assoc]
  intro ks spelled
  rw [shape, Language.mem_mul] at spelled
  obtain ⟨first, described, _, spelled, rfl⟩ := spelled
  rw [mem_word_mul] at spelled
  obtain ⟨_, spelled, rfl⟩ := spelled
  rw [Language.mem_mul] at spelled
  obtain ⟨second, named, last, spelled, rfl⟩ := spelled
  obtain ⟨words₂, run₂⟩ := name_restores legal_n named
  obtain ⟨words₃, run₃⟩ := typeBody_restores legal_leading
    (legal_constDirectives legal_ds const_directives) legal_trailing spelled
  refine ⟨by simp [words_description described, isName_form, words₂, words₃], ?_⟩
  intro c rest faces follow
  simp only [List.append_assoc, List.cons_append] at faces
  have next := follow.any last
  obtain ⟨s, c₁, read_description, same_s, faces₁⟩ := description_faces described faces
  obtain ⟨c₂, consumed, faces₂⟩ := consume_faces faces₁ (next.any second).ne_nil
  obtain ⟨n, c₃, read_name, same_n, faces₃⟩ := run₂ faces₂ next
  obtain ⟨⟨ds, body⟩, c₄, read_body, same_body, faces₄⟩ := run₃ faces₃ follow
  rw [same_pair, Bool.and_eq_true] at same_body
  refine ⟨⟨c.spanTo c₄, s, n, ds, body⟩, c₄, ?_, ?_, faces₄⟩
  · simp only [typeDefinition, lifted_self]
    rw [here_bind, bind_eq read_description, bind_eq consumed, bind_eq read_name, bind_eq read_body]
    rfl
  · simp only [same, sameOrigin_false, Bool.true_and, Bool.and_eq_true]
    exact ⟨⟨⟨same_s, same_n⟩, same_body.1⟩, same_body.2⟩

theorem rootType_restores {t : RootType} (legal : t.tree.Legal const levels) :
    Restores rootType [] t.spelling t := by
  obtain ⟨-, below⟩ := legal.flat rfl
  rw [List.forall_mem_singleton] at below
  intro ks spelled
  simp only [RootType.spelling, mul_assoc, Language.mem_mul, mem_word] at spelled
  obtain ⟨_, rfl, _, ⟨_, rfl, last, typed, rfl⟩, rfl⟩ := spelled
  obtain ⟨words, run⟩ := namedType_restores below typed
  refine ⟨by simp [words, isName_keyword], ?_⟩
  intro c rest faces follow
  simp only [List.cons_append, List.nil_append] at faces
  obtain ⟨c₁, read_kind, faces₁⟩ := operationKind_faces faces (by simp)
  obtain ⟨c₂, colon, faces₂⟩ := expect_faces faces₁ (follow.any last).ne_nil
  obtain ⟨t', c₃, read_type, same_t, faces₃⟩ := run faces₂ follow
  refine ⟨⟨c.spanTo c₃, t.operation, t'⟩, c₃, ?_, ?_, faces₃⟩
  · rw [rootType, here_bind, bind_eq read_kind, bind_eq colon,
      bind_eq read_type]
    rfl
  · simp only [same, sameOrigin_false, beq_self_eq_true, Bool.true_and]
    exact same_t

theorem follows_rootType {t : RootType} (spelled : ks ∈ t.spelling) :
    Follows [.punctuator .closeBrace] ks := by
  rw [RootType.spelling, mul_assoc] at spelled
  exact follows_word spelled (by simp)

theorem schemaDefinition_restores {d : SchemaDefinition} (legal : d.tree.Legal const levels) :
    Restores (schemaDefinition levels) [] d.spelling d := by
  obtain ⟨⟨const_directives, ne⟩, below⟩ := legal.flat rfl
  simp only [List.forall_mem_append, List.forall_mem_map] at below
  obtain ⟨⟨-, legal_ds⟩, legal_roots⟩ := below
  have roots : Restores (many .openBrace .closeBrace rootType) [] _ d.rootTypes :=
    many_restores (fun t ht => rootType_restores (legal_roots t ht))
      (fun t _ _ => follows_rootType) (by simp) ne
  have shape : d.spelling = descriptionSpelling d.description * (keyword "schema" *
      (row (·.spelling) d.directives *
        (mark .openBrace * row (·.spelling) d.rootTypes * mark .closeBrace))) := by
    simp only [SchemaDefinition.spelling, mul_assoc]
  intro ks spelled
  rw [shape, Language.mem_mul] at spelled
  obtain ⟨first, described, _, spelled, rfl⟩ := spelled
  rw [mem_word_mul] at spelled
  obtain ⟨_, spelled, rfl⟩ := spelled
  rw [Language.mem_mul] at spelled
  obtain ⟨second, directed, last, rooted, rfl⟩ := spelled
  obtain ⟨words₂, run₂⟩ :=
    constDirectives_restores (legal_constDirectives legal_ds const_directives) directed
  obtain ⟨words₃, run₃⟩ := roots rooted
  have known : IsName "schema" := by decide
  refine ⟨by simp [words_description described, known, words₂, words₃], ?_⟩
  intro c rest faces follow
  simp only [List.append_assoc, List.cons_append] at faces
  rw [mul_assoc] at rooted
  have next : Follows [.punctuator .atSign, .punctuator .openParen] (last ++ rest) :=
    (follows_word rooted (by simp)).append_left rest
  obtain ⟨s, c₁, read_description, same_s, faces₁⟩ := description_faces described faces
  obtain ⟨c₂, word, faces₂⟩ := expectKeyword_faces faces₁ (next.any second).ne_nil
  obtain ⟨ds, c₃, read_directives, same_ds, faces₃⟩ := run₂ faces₂ next
  obtain ⟨ts, c₄, read_roots, same_ts, faces₄⟩ := run₃ faces₃ follow
  refine ⟨⟨c.spanTo c₄, s, ds, ts⟩, c₄, ?_, ?_, faces₄⟩
  · simp only [schemaDefinition, lifted_self]
    rw [here_bind, bind_eq read_description, bind_eq word, bind_eq read_directives, bind_eq read_roots]
    rfl
  · simp only [same, sameOrigin_false, Bool.true_and, Bool.and_eq_true]
    exact ⟨⟨same_s, same_ds⟩, same_ts⟩

theorem directiveLocation_restores {n : Name} (legal : n.tree.Legal const levels)
    (known : ∃ l : DirectiveLocation, n.value = l.name) :
    Restores directiveLocation [] n.spelling n := by
  obtain ⟨l, value⟩ := known
  intro ks spelled
  obtain ⟨words, run⟩ := name_restores legal spelled
  refine ⟨words, ?_⟩
  intro c rest faces follow
  obtain ⟨n', c', read, same_n, faces'⟩ := run faces follow
  have value' : n'.value = l.name := by simpa [same, value] using same_n
  refine ⟨n', c', ?_, same_n, faces'⟩
  rw [directiveLocation, peek_bind, bind_eq read, value',
    DirectiveLocation.ofName?_name]
  rfl

theorem words_repeatable {b : Bool} (spelled : ks ∈ repeatableSpelling b) : AllWords ks := by
  cases b with
  | false =>
    cases (spelled : ks = [])
    exact .nil
  | true => simp [mem_word.mp spelled, (by decide : IsName "repeatable")]

theorem avoids_repeatable {b : Bool} (spelled : ks ∈ repeatableSpelling b) :
    Avoids [.punctuator .openParen] ks := by
  cases b with
  | false =>
    cases (spelled : ks = [])
    exact .nil
  | true => simp [mem_word.mp spelled, Avoids]

/-- The word is there or not, but never what has to follow it. -/
theorem repeatable_faces {b : Bool} (spelled : ks ∈ repeatableSpelling b)
    (faces : c.Faces (ks ++ .name "on" :: rest)) :
    ∃ c', acceptKeyword "repeatable" c = .ok (b, c') ∧ c'.Faces (.name "on" :: rest) := by
  cases b with
  | false =>
    cases (spelled : ks = [])
    have follow : Follows [.name "repeatable"] (.name "on" :: rest) := by simp
    exact ⟨c, acceptKeyword_none faces follow (by simp), faces⟩
  | true =>
    rw [repeatableSpelling, mem_word] at spelled
    subst spelled
    exact acceptKeyword_faces faces (by simp)

theorem directiveDefinition_restores {d : DirectiveDefinition} (legal : d.tree.Legal const levels) :
    Restores (directiveDefinition levels) [.punctuator .pipe] (d.spelling style) d := by
  obtain ⟨⟨ne, known⟩, below⟩ := legal.flat rfl
  simp only [List.forall_mem_append, List.forall_mem_map, List.forall_mem_singleton] at below
  obtain ⟨⟨⟨-, legal_n⟩, legal_as⟩, legal_ls⟩ := below
  have places : Restores (Parser.separated .pipe directiveLocation) [.punctuator .pipe]
      (Spelling.separated style .pipe (·.spelling) d.locations) d.locations :=
    separated_restores (fun n hn => directiveLocation_restores (legal_ls n hn) (known n hn))
      (fun n _ ks spelled => by simp [mem_word.mp spelled]) (by simp) ne
  have shape : d.spelling style = descriptionSpelling d.description * (keyword "directive" *
      (mark .atSign * (d.name.spelling * (argumentsSpelling d.arguments *
        (repeatableSpelling d.isRepeatable * (keyword "on" *
          Spelling.separated style .pipe (·.spelling) d.locations)))))) := by
    simp only [DirectiveDefinition.spelling, mul_assoc]
  intro ks spelled
  rw [shape, Language.mem_mul] at spelled
  obtain ⟨first, described, _, spelled, rfl⟩ := spelled
  simp only [mem_word_mul] at spelled
  obtain ⟨_, ⟨_, spelled, rfl⟩, rfl⟩ := spelled
  rw [Language.mem_mul] at spelled
  obtain ⟨second, named, _, spelled, rfl⟩ := spelled
  rw [Language.mem_mul] at spelled
  obtain ⟨third, given, _, spelled, rfl⟩ := spelled
  rw [Language.mem_mul] at spelled
  obtain ⟨fourth, repeated, _, spelled, rfl⟩ := spelled
  rw [mem_word_mul] at spelled
  obtain ⟨last, located, rfl⟩ := spelled
  obtain ⟨words₂, run₂⟩ := name_restores legal_n named
  obtain ⟨words₃, run₃⟩ := argumentDefinitions_restores legal_as given
  obtain ⟨words₄, run₄⟩ := places located
  have words := words_description described
  have words_repeated : AllWords fourth := words_repeatable repeated
  have known : IsName "directive" ∧ IsName "on" := by decide
  refine ⟨by simp [words, words₂, words₃, words₄, words_repeated, known], ?_⟩
  intro c rest faces follow
  simp only [List.append_assoc, List.cons_append] at faces
  have next₃ : Follows [.punctuator .openParen] (fourth ++ .name "on" :: (last ++ rest)) :=
    .append (avoids_repeatable repeated) (by simp)
  obtain ⟨s, c₁, read_description, same_s, faces₁⟩ := description_faces described faces
  obtain ⟨c₂, word, faces₂⟩ := expectKeyword_faces faces₁ (by simp)
  obtain ⟨c₃, at_sign, faces₃⟩ := expect_faces faces₂ ((next₃.any third).any second).ne_nil
  obtain ⟨n, c₄, read_name, same_n, faces₄⟩ := run₂ faces₃ (next₃.any third)
  obtain ⟨as, c₅, read_arguments, same_as, faces₅⟩ := run₃ faces₄ next₃
  obtain ⟨c₆, read_repeatable, faces₆⟩ := repeatable_faces repeated faces₅
  obtain ⟨c₇, on, faces₇⟩ := expectKeyword_faces faces₆ (follow.any last).ne_nil
  obtain ⟨ls, c₈, read_locations, same_ls, faces₈⟩ := run₄ faces₇ follow
  refine ⟨⟨c.spanTo c₈, s, n, as, d.isRepeatable, ls⟩, c₈, ?_, ?_, faces₈⟩
  · simp only [directiveDefinition, lifted_self]
    rw [here_bind, bind_eq read_description, bind_eq word, bind_eq at_sign, bind_eq read_name,
      bind_eq read_arguments, bind_eq read_repeatable, bind_eq on, bind_eq read_locations]
    rfl
  · simp only [same, sameOrigin_false, beq_self_eq_true, Bool.true_and, Bool.and_true,
      Bool.and_eq_true]
    exact ⟨⟨⟨same_s, same_n⟩, same_as⟩, same_ls⟩

theorem isEmpty_of_same {α : Type} [Comparable α] {as' as : List α}
    (h : same false as' as = true) : as'.isEmpty = as.isEmpty := by
  cases as' <;> cases as
  all_goals first | rfl | cases h

theorem isEmpty_of_same_body {body' body : TypeBody} (h : same false body' body = true) :
    body'.isEmpty = body.isEmpty := by
  cases body' <;> cases body
  -- Bodies of different forms are never the same.
  all_goals try cases h
  case scalar.scalar => rfl
  case object.object is' fs' is fs | interface.interface is' fs' is fs =>
    obtain ⟨same_is, same_fs⟩ := Bool.and_eq_true_iff.mp h
    simp only [TypeBody.isEmpty, isEmpty_of_same same_is, isEmpty_of_same same_fs]
  case union.union ms' ms =>
    have same_ms : same false ms' ms = true := h
    exact isEmpty_of_same same_ms
  case enum.enum vs' vs =>
    have same_vs : same false vs' vs = true := h
    exact isEmpty_of_same same_vs
  case inputObject.inputObject fs' fs =>
    have same_fs : same false fs' fs = true := h
    exact isEmpty_of_same same_fs

theorem isEmpty_eq_false_of_trees {body : TypeBody}
    (h : body.leadingTrees ≠ [] ∨ body.trailingTrees ≠ []) : body.isEmpty = false := by
  cases body
  all_goals simp_all [TypeBody.leadingTrees, TypeBody.trailingTrees, TypeBody.isEmpty,
    imp_iff_not_or]

/-- Additions to a schema after both keywords. -/
theorem schemaExtension_restores {d : SchemaExtension} (start : Position)
    (legal : d.tree.Legal const levels) :
    Restores (schemaExtension levels start) typeContinuations
      (row (·.spelling) d.directives * block .openBrace .closeBrace (·.spelling) d.rootTypes)
      d := by
  obtain ⟨⟨const_directives, adds⟩, below⟩ := legal.flat rfl
  simp only [List.forall_mem_append, List.forall_mem_map] at below
  obtain ⟨legal_ds, legal_roots⟩ := below
  have body := bracedBody_restores (fun t ht => rootType_restores (legal_roots t ht))
    (fun t _ _ => follows_rootType) (by simp) (legal_constDirectives legal_ds const_directives)
  intro ks spelled
  obtain ⟨words, run⟩ := body spelled
  refine ⟨words, ?_⟩
  intro c rest faces follow
  obtain ⟨⟨_, _⟩, c', read, same_body, faces'⟩ := run faces follow
  simp only [bind_ok, pure_ok, Prod.mk.injEq] at read
  obtain ⟨ds, c₁, read_directives, ts, c₂, read_roots, ⟨rfl, rfl⟩, rfl⟩ := read
  rw [same_pair, Bool.and_eq_true] at same_body
  obtain ⟨same_ds, same_ts⟩ := same_body
  have adds' : (ds.isEmpty && ts.isEmpty) = false := by
    rw [isEmpty_of_same same_ds, isEmpty_of_same same_ts, Bool.and_eq_false_iff]
    exact adds.imp (by simp) (by simp)
  refine ⟨⟨some ⟨c₂.source, start, c₂.lastEnd⟩, ds, ts⟩, c₂, ?_, ?_, faces'⟩
  · simp only [schemaExtension, lifted_self]
    rw [bind_eq read_directives, bind_eq read_roots, adds', if_neg (by simp)]
    rfl
  · simp only [same, sameOrigin_false, Bool.true_and, Bool.and_eq_true]
    exact ⟨same_ds, same_ts⟩

/-- Additions to a type after both keywords. -/
theorem typeExtension_restores {d : TypeExtension} (start : Position)
    (legal : d.tree.Legal const levels) :
    Restores (typeExtension levels start d.body.form) typeContinuations
      (typeSpelling style d.name d.directives d.body) d := by
  obtain ⟨⟨const_directives, adds⟩, below⟩ := legal.flat rfl
  simp only [List.forall_mem_append, List.forall_mem_map, List.forall_mem_singleton] at below
  obtain ⟨⟨⟨legal_n, legal_leading⟩, legal_ds⟩, legal_trailing⟩ := below
  have shape : typeSpelling style d.name d.directives d.body =
      d.name.spelling * (d.body.leadingSpelling style *
        (row (·.spelling) d.directives * d.body.trailingSpelling style)) := by
    simp only [typeSpelling, mul_assoc]
  intro ks spelled
  rw [shape, Language.mem_mul] at spelled
  obtain ⟨first, named, last, spelled, rfl⟩ := spelled
  obtain ⟨words, run⟩ := name_restores legal_n named
  obtain ⟨words', run'⟩ := typeBody_restores legal_leading
    (legal_constDirectives legal_ds const_directives) legal_trailing spelled
  refine ⟨by simp [words, words'], ?_⟩
  intro c rest faces follow
  rw [List.append_assoc] at faces
  obtain ⟨n, c₁, read_name, same_n, faces₁⟩ := run faces (follow.any last)
  obtain ⟨⟨ds, body⟩, c₂, read_body, same_body, faces₂⟩ := run' faces₁ follow
  rw [same_pair, Bool.and_eq_true] at same_body
  obtain ⟨same_ds, same_body⟩ := same_body
  have adds' : (ds.isEmpty && body.isEmpty) = false := by
    rw [isEmpty_of_same same_ds, isEmpty_of_same_body same_body, Bool.and_eq_false_iff]
    exact adds.imp (by simp) isEmpty_eq_false_of_trees
  refine ⟨⟨some ⟨c₂.source, start, c₂.lastEnd⟩, n, ds, body⟩, c₂, ?_, ?_, faces₂⟩
  · simp only [typeExtension, lifted_self]
    rw [bind_eq read_name, bind_eq read_body]
    simp only [adds']
    rfl
  · simp only [same, sameOrigin_false, Bool.true_and, Bool.and_eq_true]
    exact ⟨⟨same_n, same_ds⟩, same_body⟩

end Parser
end GraphQL
