import GraphQL.Parser.Executable
import GraphQL.Proofs.Complete.Value

/-! The parsers of directives, selections, operations and fragments give back what a spelling was
made from. -/
namespace GraphQL.Parser

open Spelling

variable {const : Bool} {levels : Nat} {bad ks rest : List TokenKind} {c : Cursor}

/-- Directives are missing or start with their mark. -/
theorem avoids_directives {ds : List Directive} (free : .punctuator .atSign ∉ bad)
    (spelled : ks ∈ row (·.spelling) ds) : Avoids bad ks := by
  refine .row ?_ spelled
  intro d _ ks spelled
  rw [Directive.spelling, mul_assoc] at spelled
  exact (follows_word spelled free).avoids

theorem follows_selectionSet {s : SelectionSet} (free : .punctuator .openBrace ∉ bad)
    (spelled : ks ∈ s.spelling) : Follows bad ks := by
  rw [SelectionSet.spelling_eq, mul_assoc] at spelled
  exact follows_word spelled free

/-- Directives and selections after them start with a mark. -/
theorem mark_of_directives {ds : List Directive} {s : SelectionSet}
    (spelled : ks ∈ row (·.spelling) ds * s.spelling) : ∃ m later, ks = .punctuator m :: later := by
  cases ds with
  | nil =>
    rw [row_nil, one_mul, SelectionSet.spelling_eq, mul_assoc, mem_word_mul] at spelled
    obtain ⟨later, -, rfl⟩ := spelled
    exact ⟨.openBrace, later, rfl⟩
  | cons d ds =>
    simp only [row_cons, Directive.spelling, mul_assoc, mem_word_mul] at spelled
    obtain ⟨later, -, rfl⟩ := spelled
    exact ⟨.atSign, later, rfl⟩

theorem follows_argument {a : Argument} (spelled : ks ∈ a.spelling) :
    Follows [.punctuator .closeParen] ks := by
  rw [Argument.spelling, mul_assoc] at spelled
  exact follows_word spelled (by simp)

/-- Selections in braces may follow a field. -/
theorem innerSelections_faces {q : Parser SelectionSet} {o : Option SelectionSet}
    (sets : ∀ s ∈ o, Restores q [] s.spelling s) (spelled : ks ∈ maybe (·.spelling) o)
    (faces : c.Faces (ks ++ rest)) (follow : Follows [.punctuator .openBrace] rest) :
    ∃ o' c', same false o' o = true ∧ c'.Faces rest ∧
      ∀ next : Option SelectionSet → Parser Field,
        (do
          if ← atMark .openBrace then
            let inner ← some <$> q
            next inner
          else
            let inner ← pure none
            next inner) c = next o' c' := by
  cases o with
  | none =>
    cases (spelled : ks = [])
    have other : c.current.kind ≠ .punctuator .openBrace := by
      simpa using faces.kind_notMem follow
    refine ⟨none, c, rfl, faces, ?_⟩
    intro next
    rw [atMark_bind, if_neg (by simp [other])]
    exact bind_eq (pure_ok.mpr ⟨rfl, rfl⟩)
  | some s =>
    obtain ⟨s', c', read, same_s, faces'⟩ := (sets s rfl spelled).2 faces (follow.mono (by simp))
    have start : ks ∈ s.spelling := spelled
    rw [SelectionSet.spelling_eq, mul_assoc] at start
    refine ⟨some s', c', same_s, faces', ?_⟩
    intro next
    rw [atMark_bind, if_pos (decide_eq_true (kind_of_word start faces))]
    exact bind_eq (map_ok.mpr ⟨s', read, rfl⟩)

section Values

variable {p : Parser Value}
  (values : ∀ v : Value, v.tree.Legal const levels → Restores p [] v.spelling v)
include values

theorem argument_restores {a : Argument} (legal : a.tree.Legal const levels) :
    Restores (argument p) [] a.spelling a := by
  obtain ⟨-, below⟩ := legal.flat rfl
  simp only [List.forall_mem_cons] at below
  intro ks spelled
  rw [Argument.spelling, Language.mem_mul] at spelled
  obtain ⟨first, spelled, last, valued, rfl⟩ := spelled
  rw [mem_mul_word] at spelled
  obtain ⟨first, named, rfl⟩ := spelled
  obtain ⟨words, run⟩ := name_restores below.1 named
  obtain ⟨words', run'⟩ := values a.value below.2.1 valued
  refine ⟨by simp [words, words'], ?_⟩
  intro c rest faces follow
  simp only [List.append_assoc] at faces
  obtain ⟨n, c₁, read_name, same_n, faces₁⟩ := run faces (by simp)
  obtain ⟨c₂, colon, faces₂⟩ := expect_faces faces₁ (by simp [follow.ne_nil])
  obtain ⟨v, c₃, read_value, same_v, faces₃⟩ := run' faces₂ follow
  refine ⟨⟨c.spanTo c₃, n, v⟩, c₃, ?_, ?_, faces₃⟩
  · simp only [argument, lifted_self]
    rw [here_bind, bind_eq read_name, bind_eq colon, bind_eq read_value]
    rfl
  · simpa [same] using And.intro same_n same_v

theorem arguments_restores {as : List Argument} (legal : ∀ a ∈ as, a.tree.Legal const levels) :
    Restores (arguments p) [.punctuator .openParen]
      (block .openParen .closeParen (·.spelling) as) as :=
  optionalMany_restores (fun a ha => argument_restores values (legal a ha))
    (fun a _ _ => follows_argument) (by simp)

theorem directive_restores {d : Directive} (legal : d.tree.Legal const levels) :
    Restores (directive p) [.punctuator .openParen] d.spelling d := by
  obtain ⟨-, below⟩ := legal.flat rfl
  rw [List.forall_mem_cons, List.forall_mem_map] at below
  intro ks spelled
  rw [Directive.spelling, mul_assoc, mem_word_mul] at spelled
  obtain ⟨later, spelled, rfl⟩ := spelled
  rw [Language.mem_mul] at spelled
  obtain ⟨first, named, last, given, rfl⟩ := spelled
  obtain ⟨words, run⟩ := name_restores below.1 named
  obtain ⟨words', run'⟩ := arguments_restores values below.2 given
  refine ⟨by simp [words, words'], ?_⟩
  intro c rest faces follow
  simp only [List.cons_append, List.append_assoc] at faces
  obtain ⟨c₁, at_sign, faces₁⟩ := expect_faces faces (by simp [follow.ne_nil])
  obtain ⟨n, c₂, read_name, same_n, faces₂⟩ := run faces₁ (follow.any last)
  obtain ⟨as, c₃, read_arguments, same_as, faces₃⟩ := run' faces₂ follow
  refine ⟨⟨c.spanTo c₃, n, as⟩, c₃, ?_, ?_, faces₃⟩
  · simp only [directive, lifted_self]
    rw [here_bind, bind_eq at_sign, bind_eq read_name, bind_eq read_arguments]
    rfl
  · simpa [same] using And.intro same_n same_as

theorem directives_restores {ds : List Directive} (legal : ∀ d ∈ ds, d.tree.Legal const levels) :
    Restores (directives p) [.punctuator .atSign, .punctuator .openParen]
      (row (·.spelling) ds) ds := by
  refine whileAt_restores (fun d hd => directive_restores values (legal d hd)) ?_ (by simp)
  intro d _ ks spelled
  rw [Directive.spelling, mul_assoc, mem_word_mul] at spelled
  obtain ⟨later, -, rfl⟩ := spelled
  exact ⟨later, rfl⟩

section Selections

variable {q : Parser SelectionSet}
  (sets : ∀ s : SelectionSet, s.tree.Legal const levels → Restores q [] s.spelling s)
include sets

/-- A field from its arguments on. -/
theorem fieldRest_restores {f : Field} {aliasName : Option Name} {n : Name} (start : Position)
    (same_alias : same false aliasName f.aliasName = true) (same_n : same false n f.name = true)
    (legal_arguments : ∀ a ∈ f.arguments, a.tree.Legal const levels)
    (legal_directives : ∀ d ∈ f.directives, d.tree.Legal const levels)
    (legal_set : ∀ s ∈ f.selectionSet, s.tree.Legal const levels) :
    Restores
      (do
        let args ← arguments p
        let ds ← directives p
        let inner ← if ← atMark .openBrace then some <$> q else pure none
        return ⟨some (← spanFrom start), aliasName, n, args, ds, inner⟩)
      [.punctuator .openParen, .punctuator .atSign, .punctuator .openBrace]
      (block .openParen .closeParen (·.spelling) f.arguments * row (·.spelling) f.directives *
        maybe (·.spelling) f.selectionSet) f := by
  intro ks spelled
  rw [Language.mem_mul] at spelled
  obtain ⟨first, spelled, last, selected, rfl⟩ := spelled
  rw [Language.mem_mul] at spelled
  obtain ⟨first, given, middle, directed, rfl⟩ := spelled
  obtain ⟨words₁, run₁⟩ := arguments_restores values legal_arguments given
  obtain ⟨words₂, run₂⟩ := directives_restores values legal_directives directed
  have inner_sets := fun s hs => sets s (legal_set s hs)
  have words₃ : AllWords last :=
    words_maybe (fun s hs _ spelled => (inner_sets s hs spelled).1) selected
  refine ⟨by simp [words₁, words₂, words₃], ?_⟩
  intro c rest faces follow
  simp only [List.append_assoc] at faces
  have next₂ : Follows [.punctuator .openParen, .punctuator .atSign] (last ++ rest) := by
    refine .append (.maybe ?_ selected) (follow.mono (by simp +contextual))
    intro s _ ks spelled
    exact (follows_selectionSet (by simp) spelled).avoids
  have next₁ : Follows [.punctuator .openParen] (middle ++ (last ++ rest)) :=
    .append (avoids_directives (by simp) directed) (next₂.mono (by simp))
  obtain ⟨as, c₁, read_arguments, same_as, faces₁⟩ := run₁ faces next₁
  obtain ⟨ds, c₂, read_directives, same_ds, faces₂⟩ := run₂ faces₁ (next₂.mono (by simp))
  obtain ⟨inner, c₃, same_set, faces₃, read_set⟩ :=
    innerSelections_faces inner_sets selected faces₂ (follow.mono (by simp))
  refine ⟨⟨some ⟨c₃.source, start, c₃.lastEnd⟩, aliasName, n, as, ds, inner⟩, c₃, ?_, ?_, faces₃⟩
  · rw [bind_eq read_arguments, bind_eq read_directives]
    refine (read_set _).trans (bind_ok.mpr ?_)
    exact ⟨_, _, spanFrom_ok.mpr ⟨rfl, rfl⟩, rfl⟩
  · simp only [same, Field.same, sameOrigin_false, SelectionSet.sameOptional_eq_same,
      Bool.true_and, Bool.and_eq_true]
    exact ⟨⟨⟨⟨same_alias, same_n⟩, same_as⟩, same_ds⟩, same_set⟩

omit values sets in
theorem avoids_fieldRest {f : Field}
    (spelled : ks ∈ block .openParen .closeParen (·.spelling) f.arguments *
      row (·.spelling) f.directives * maybe (·.spelling) f.selectionSet) :
    Avoids [.punctuator .colon] ks := by
  refine .mul (fun ks => .mul (fun ks => .block (by simp))
    (fun ks => avoids_directives (by simp))) (fun ks => .maybe ?_) spelled
  intro s _ ks spelled
  exact (follows_selectionSet (by simp) spelled).avoids

/-- A field whose name no colon follows has no alias. -/
theorem bareField_restores {f : Field} (no_alias : f.aliasName = none)
    (legal_name : f.name.tree.Legal const levels)
    (legal_arguments : ∀ a ∈ f.arguments, a.tree.Legal const levels)
    (legal_directives : ∀ d ∈ f.directives, d.tree.Legal const levels)
    (legal_set : ∀ s ∈ f.selectionSet, s.tree.Legal const levels) :
    Restores (field p q)
      [.punctuator .colon, .punctuator .openParen, .punctuator .atSign, .punctuator .openBrace]
      f.spelling f := by
  have same_alias : same false none f.aliasName = true := by rw [no_alias, same_none]
  intro ks spelled
  rw [Field.spelling_eq, no_alias, maybe, one_mul, mul_assoc, mul_assoc,
    ← mul_assoc (block _ _ _ _), Language.mem_mul] at spelled
  obtain ⟨first, named, last, others, rfl⟩ := spelled
  have others_restore := fun (start : Position) (n : Name) (same_n : same false n f.name = true) =>
    fieldRest_restores values sets start same_alias same_n legal_arguments legal_directives
      legal_set others
  obtain ⟨words, run⟩ := name_restores legal_name named
  have words' : AllWords last := (others_restore .first f.name (by simp [same])).1
  refine ⟨by simp [words, words'], ?_⟩
  intro c rest faces follow
  rw [List.append_assoc] at faces
  have next : Follows [.punctuator .colon] (last ++ rest) :=
    .append (avoids_fieldRest others) (follow.mono (by simp))
  obtain ⟨n, c₁, read_name, same_n, faces₁⟩ := run faces (follow.any last)
  obtain ⟨f', c₂, read, same_f, faces₂⟩ :=
    (others_restore c.current.start n same_n).2 faces₁ (follow.mono (by simp))
  refine ⟨f', c₂, ?_, same_f, faces₂⟩
  have other : accept .colon c₁ = .ok (false, c₁) := accept_none faces₁ next (by simp)
  simp only [field, lifted_self]
  rw [here_bind, bind_eq read_name, bind_eq other, if_neg (by simp)]
  exact read

/-- A name before a colon is an alias. -/
theorem aliasedField_restores {f : Field} {a : Name} (aliased : f.aliasName = some a)
    (legal_alias : a.tree.Legal const levels) (legal_name : f.name.tree.Legal const levels)
    (legal_arguments : ∀ a ∈ f.arguments, a.tree.Legal const levels)
    (legal_directives : ∀ d ∈ f.directives, d.tree.Legal const levels)
    (legal_set : ∀ s ∈ f.selectionSet, s.tree.Legal const levels) :
    Restores (field p q) [.punctuator .openParen, .punctuator .atSign, .punctuator .openBrace]
      f.spelling f := by
  intro ks spelled
  simp only [Field.spelling_eq, aliased, maybe, mul_assoc] at spelled
  rw [Language.mem_mul] at spelled
  obtain ⟨first, calling, _, spelled, rfl⟩ := spelled
  rw [mem_word_mul] at spelled
  obtain ⟨_, spelled, rfl⟩ := spelled
  rw [Language.mem_mul] at spelled
  obtain ⟨second, named, last, others, rfl⟩ := spelled
  rw [← mul_assoc] at others
  have others_restore := fun (start : Position) (a' n : Name)
      (same_a : same false (some a') f.aliasName = true) (same_n : same false n f.name = true) =>
    fieldRest_restores values sets start same_a same_n legal_arguments legal_directives legal_set
      others
  obtain ⟨words₁, run₁⟩ := name_restores legal_alias calling
  obtain ⟨words₂, run₂⟩ := name_restores legal_name named
  have words₃ : AllWords last :=
    (others_restore .first a f.name (by simp [aliased, same]) (by simp [same])).1
  refine ⟨by simp [words₁, words₂, words₃], ?_⟩
  intro c rest faces follow
  simp only [List.append_assoc, List.cons_append] at faces
  obtain ⟨a', c₁, read_alias, same_a, faces₁⟩ := run₁ faces (by simp)
  obtain ⟨c₂, colon, faces₂⟩ := accept_faces faces₁ ((follow.any last).any second).ne_nil
  obtain ⟨n, c₃, read_name, same_n, faces₃⟩ := run₂ faces₂ (follow.any last)
  have same_alias : same false (some a') f.aliasName = true := by
    rw [aliased]
    exact same_a
  obtain ⟨f', c₄, read, same_f, faces₄⟩ :=
    (others_restore c.current.start a' n same_alias same_n).2 faces₃ follow
  refine ⟨f', c₄, ?_, same_f, faces₄⟩
  simp only [field, lifted_self]
  rw [here_bind, bind_eq read_alias, bind_eq colon, if_pos rfl, bind_eq read_name]
  exact read

theorem field_restores {f : Field} (legal : f.tree.Legal const levels) :
    Restores (field p q)
      [.punctuator .colon, .punctuator .openParen, .punctuator .atSign, .punctuator .openBrace]
      f.spelling f := by
  obtain ⟨o, aliasName, n, as, ds, set⟩ := f
  obtain ⟨-, below⟩ := legal.flat rfl
  simp only [List.forall_mem_append, List.forall_mem_map, List.forall_mem_singleton] at below
  obtain ⟨⟨⟨⟨legal_alias, legal_n⟩, legal_as⟩, legal_ds⟩, legal_set⟩ := below
  have legal_inner : ∀ s ∈ set, s.tree.Legal const levels := by
    intro s hs
    cases hs
    exact legal_set _ List.mem_cons_self
  cases aliasName with
  | none => exact bareField_restores values sets rfl legal_n legal_as legal_ds legal_inner
  | some a =>
    have legal_a := legal_alias a (by simp)
    exact (aliasedField_restores values sets rfl legal_a legal_n legal_as legal_ds
      legal_inner).mono (by simp)

omit sets in
/-- A word after the dots that is not `on` names a fragment. -/
theorem spread_restores {s : FragmentSpread} (legal : s.tree.Legal const levels) :
    Restores (fragmentSelection p q) [.punctuator .atSign, .punctuator .openParen] s.spelling
      (.spread s) := by
  obtain ⟨lawful, below⟩ := legal.flat rfl
  rw [List.forall_mem_cons, List.forall_mem_map] at below
  intro ks spelled
  rw [FragmentSpread.spelling, mul_assoc, mem_word_mul] at spelled
  obtain ⟨later, spelled, rfl⟩ := spelled
  rw [Language.mem_mul] at spelled
  obtain ⟨first, named, last, directed, rfl⟩ := spelled
  obtain ⟨words, run⟩ := name_restores below.1 named
  obtain ⟨words', run'⟩ := directives_restores values below.2 directed
  refine ⟨by simp [words, words'], ?_⟩
  intro c rest faces follow
  simp only [List.cons_append, List.append_assoc] at faces
  obtain ⟨c₁, dots, faces₁⟩ := expect_faces faces ((follow.any last).any first).ne_nil
  obtain ⟨n, c₂, read_name, same_n, faces₂⟩ := run faces₁ (follow.any last)
  obtain ⟨ds, c₃, read_directives, same_ds, faces₃⟩ := run' faces₂ follow
  refine ⟨.spread ⟨c.spanTo c₃, n, ds⟩, c₃, ?_, ?_, faces₃⟩
  · have kind : c₁.current.kind = .name s.name.value := by
      rw [Name.spelling, mem_word] at named
      rw [named] at faces₁
      exact faces₁.kind
    have word : c₁.current.kind.isKeyword "on" = false := by
      have free : s.name.value ≠ "on" := lawful
      simpa [← Bool.not_eq_true, kind] using free
    simp only [fragmentSelection, lifted_self]
    rw [here_bind, bind_eq dots, atKeyword_bind, word, peek_bind,
      if_pos (by simp [kind, TokenKind.isName]), bind_eq read_name, bind_eq read_directives]
    rfl
  · simpa [same, Selection.same] using And.intro same_n same_ds

/-- An inline fragment from its directives on. -/
theorem inlineRest_restores {f : InlineFragment} {condition : Option NamedType} (start : Position)
    (same_condition : same false condition f.typeCondition = true)
    (legal_directives : ∀ d ∈ f.directives, d.tree.Legal const levels)
    (legal_set : f.selectionSet.tree.Legal const levels) :
    Restores
      (do
        let ds ← directives p
        let inner ← q
        return Selection.inlineFragment ⟨some (← spanFrom start), condition, ds, inner⟩)
      [] (row (·.spelling) f.directives * f.selectionSet.spelling)
      (Selection.inlineFragment f) := by
  intro ks spelled
  rw [Language.mem_mul] at spelled
  obtain ⟨first, directed, last, selected, rfl⟩ := spelled
  obtain ⟨words, run⟩ := directives_restores values legal_directives directed
  obtain ⟨words', run'⟩ := sets f.selectionSet legal_set selected
  refine ⟨by simp [words, words'], ?_⟩
  intro c rest faces follow
  rw [List.append_assoc] at faces
  have next : Follows [.punctuator .atSign, .punctuator .openParen] (last ++ rest) :=
    (follows_selectionSet (by simp) selected).append_left rest
  obtain ⟨ds, c₁, read_directives, same_ds, faces₁⟩ := run faces next
  obtain ⟨inner, c₂, read_set, same_set, faces₂⟩ := run' faces₁ follow
  refine ⟨.inlineFragment ⟨some ⟨c₂.source, start, c₂.lastEnd⟩, condition, ds, inner⟩, c₂, ?_, ?_,
    faces₂⟩
  · rw [bind_eq read_directives, bind_eq read_set]
    rfl
  · simp only [same, Selection.same, InlineFragment.same, sameOrigin_false, Bool.true_and,
      Bool.and_eq_true]
    exact ⟨⟨same_condition, same_ds⟩, same_set⟩

/-- After the dots of a fragment without a condition no word follows. -/
theorem unconditional_restores {f : InlineFragment} (no_condition : f.typeCondition = none)
    (legal_directives : ∀ d ∈ f.directives, d.tree.Legal const levels)
    (legal_set : f.selectionSet.tree.Legal const levels) :
    Restores (fragmentSelection p q) [] f.spelling (.inlineFragment f) := by
  have same_condition : same false none f.typeCondition = true := by rw [no_condition, same_none]
  intro ks spelled
  rw [InlineFragment.spelling_eq, no_condition, maybe, mul_one, mul_assoc, mem_word_mul] at spelled
  obtain ⟨last, others, rfl⟩ := spelled
  have others_restore := fun (start : Position) =>
    inlineRest_restores values sets start same_condition legal_directives legal_set others
  have words : AllWords last := (others_restore .first).1
  refine ⟨by simpa using words, ?_⟩
  intro c rest faces follow
  rw [List.cons_append] at faces
  obtain ⟨c₁, dots, faces₁⟩ := expect_faces faces (follow.any last).ne_nil
  obtain ⟨f', c₂, read, same_f, faces₂⟩ := (others_restore c.current.start).2 faces₁ follow
  refine ⟨f', c₂, ?_, same_f, faces₂⟩
  obtain ⟨m, later, rfl⟩ := mark_of_directives others
  have kind : c₁.current.kind = .punctuator m := faces₁.kind
  have word : c₁.current.kind.isKeyword "on" = false := by simp [kind, TokenKind.isKeyword]
  simp only [fragmentSelection, lifted_self]
  rw [here_bind, bind_eq dots, atKeyword_bind, word, peek_bind,
    if_neg (by simp [kind, TokenKind.isName]), if_neg (by simp)]
  exact read

/-- A condition is the type after the word `on`. -/
theorem conditional_restores {f : InlineFragment} {t : NamedType}
    (conditional : f.typeCondition = some t) (legal_condition : t.tree.Legal const levels)
    (legal_directives : ∀ d ∈ f.directives, d.tree.Legal const levels)
    (legal_set : f.selectionSet.tree.Legal const levels) :
    Restores (fragmentSelection p q) [] f.spelling (.inlineFragment f) := by
  intro ks spelled
  simp only [InlineFragment.spelling_eq, conditional, maybe, mul_assoc, mem_word_mul] at spelled
  obtain ⟨_, ⟨_, spelled, rfl⟩, rfl⟩ := spelled
  rw [Language.mem_mul] at spelled
  obtain ⟨first, named, last, others, rfl⟩ := spelled
  have others_restore := fun (start : Position) (t' : NamedType)
      (same_t : same false (some t') f.typeCondition = true) =>
    inlineRest_restores values sets start same_t legal_directives legal_set others
  obtain ⟨words, run⟩ := namedType_restores legal_condition named
  have words' : AllWords last := (others_restore .first t (by simp [conditional, same])).1
  refine ⟨by simp [words, words', (by decide : IsName "on")], ?_⟩
  intro c rest faces follow
  simp only [List.cons_append, List.append_assoc] at faces
  obtain ⟨c₁, dots, faces₁⟩ := expect_faces faces (by simp)
  obtain ⟨c₂, consumed, faces₂⟩ := consume_faces faces₁ ((follow.any last).any first).ne_nil
  obtain ⟨t', c₃, read_type, same_t, faces₃⟩ := run faces₂ (follow.any last)
  have same_condition : same false (some t') f.typeCondition = true := by
    rw [conditional]
    exact same_t
  obtain ⟨f', c₄, read, same_f, faces₄⟩ :=
    (others_restore c.current.start t' same_condition).2 faces₃ follow
  refine ⟨f', c₄, ?_, same_f, faces₄⟩
  have word : c₁.current.kind.isKeyword "on" = true := by simp [faces₁.kind]
  simp only [fragmentSelection, lifted_self]
  rw [here_bind, bind_eq dots, atKeyword_bind, word, peek_bind, if_neg (by simp), if_pos rfl,
    bind_eq consumed, bind_eq (map_ok.mpr ⟨t', read_type, rfl⟩)]
  exact read

theorem inlineFragment_restores {f : InlineFragment} (legal : f.tree.Legal const levels) :
    Restores (fragmentSelection p q) [] f.spelling (.inlineFragment f) := by
  obtain ⟨o, condition, ds, set⟩ := f
  obtain ⟨-, below⟩ := legal.flat rfl
  simp only [List.forall_mem_append, List.forall_mem_map, List.forall_mem_singleton] at below
  obtain ⟨⟨legal_condition, legal_ds⟩, legal_set⟩ := below
  cases condition with
  | none => exact unconditional_restores values sets rfl legal_ds legal_set
  | some t =>
    exact conditional_restores values sets rfl (legal_condition t (by simp)) legal_ds legal_set

omit values sets in
theorem name_of_field {f : Field} (spelled : ks ∈ f.spelling) :
    ∃ text later, ks = .name text :: later := by
  rw [Field.spelling_eq] at spelled
  cases aliased : f.aliasName with
  | none =>
    simp only [aliased, maybe, one_mul, mul_assoc, Name.spelling, mem_word_mul] at spelled
    obtain ⟨later, -, rfl⟩ := spelled
    exact ⟨_, later, rfl⟩
  | some a =>
    simp only [aliased, maybe, mul_assoc, Name.spelling, mem_word_mul] at spelled
    obtain ⟨later, -, rfl⟩ := spelled
    exact ⟨_, later, rfl⟩

omit values sets in
theorem dots_of_spread {s : FragmentSpread} (spelled : ks ∈ s.spelling) :
    ∃ later, ks = .punctuator .ellipsis :: later := by
  rw [FragmentSpread.spelling, mul_assoc, mem_word_mul] at spelled
  obtain ⟨later, -, rfl⟩ := spelled
  exact ⟨later, rfl⟩

omit values sets in
theorem dots_of_inlineFragment {f : InlineFragment} (spelled : ks ∈ f.spelling) :
    ∃ later, ks = .punctuator .ellipsis :: later := by
  rw [InlineFragment.spelling_eq, mul_assoc, mul_assoc, mem_word_mul] at spelled
  obtain ⟨later, -, rfl⟩ := spelled
  exact ⟨later, rfl⟩

omit values sets in
/-- Dots tell a fragment from a field. -/
theorem selection_of_dots {s : Selection} {spelling : Spelling}
    (read : Restores (fragmentSelection p q) bad spelling s)
    (dots : ∀ ks ∈ spelling, ∃ later, ks = .punctuator .ellipsis :: later) :
    Restores (selection p q) bad spelling s := by
  intro ks spelled
  obtain ⟨words, run⟩ := read spelled
  refine ⟨words, ?_⟩
  intro c rest faces follow
  obtain ⟨later, rfl⟩ := dots ks spelled
  simp only [selection, lifted_self]
  rw [atMark_bind, if_pos (decide_eq_true faces.kind)]
  exact run faces follow

theorem selection_restores {s : Selection} (legal : s.tree.Legal const levels) :
    Restores (selection p q)
      [.punctuator .colon, .punctuator .openParen, .punctuator .atSign, .punctuator .openBrace]
      s.spelling s := by
  cases s with
  | field f =>
    intro ks spelled
    obtain ⟨words, run⟩ := field_restores values sets legal spelled
    refine ⟨words, ?_⟩
    intro c rest faces follow
    obtain ⟨f', c', read, same_f, faces'⟩ := run faces follow
    refine ⟨.field f', c', ?_, by simpa [same, Selection.same] using same_f, faces'⟩
    obtain ⟨text, later, rfl⟩ := name_of_field spelled
    have other : c.current.kind ≠ .punctuator .ellipsis := by simp [faces.kind]
    simp only [selection, lifted_self]
    rw [atMark_bind, if_neg (by simp [other])]
    exact map_ok.mpr ⟨f', read, rfl⟩
  | spread s =>
    have read := selection_of_dots (spread_restores (q := q) values legal) fun _ => dots_of_spread
    exact read.mono (by simp)
  | inlineFragment f =>
    have read := selection_of_dots (inlineFragment_restores values sets legal)
      fun _ => dots_of_inlineFragment
    exact read.mono (by simp)

omit values sets in
/-- No selection starts with a mark that closes a set. -/
theorem follows_selection {s : Selection} (spelled : ks ∈ s.spelling) :
    Follows [.punctuator .closeBrace, .punctuator .colon, .punctuator .openParen,
      .punctuator .atSign, .punctuator .openBrace] ks := by
  cases s with
  | field f =>
    obtain ⟨text, later, rfl⟩ := name_of_field spelled
    simp
  | spread s =>
    obtain ⟨later, rfl⟩ := dots_of_spread spelled
    simp
  | inlineFragment f =>
    obtain ⟨later, rfl⟩ := dots_of_inlineFragment spelled
    simp

end Selections

end Values

/-- Selection sets within a limit of levels. -/
theorem selectionSet_restores {s : SelectionSet} (legal : s.tree.Legal false levels) :
    Restores (selectionSet levels) [] s.spelling s := by
  induction levels generalizing s with
  | zero =>
    obtain ⟨o, selections⟩ := s
    exact absurd (legal.nested rfl).2.1 (Nat.lt_irrefl 0)
  | succ levels ih =>
    obtain ⟨o, selections⟩ := s
    obtain ⟨ne, -, below⟩ := legal.nested rfl
    rw [Selection.trees_eq_map, List.forall_mem_map] at below
    intro ks spelled
    rw [SelectionSet.spelling_eq] at spelled
    have values : ∀ v : Value, v.tree.Legal false levels →
        Restores (value none levels) [] v.spelling v := fun v legal => value_restores legal
    have each : ∀ s ∈ selections,
        Restores (selection (value none levels) (selectionSet levels)) _ s.spelling s :=
      fun s hs => selection_restores values (fun s legal => ih legal) (below s hs)
    have all : Restores (many .openBrace .closeBrace _) [] _ selections :=
      many_restores each (fun s _ _ => follows_selection) (by simp) ne
    obtain ⟨words, run⟩ := all spelled
    refine ⟨words, ?_⟩
    intro c rest faces follow
    obtain ⟨items', c', read, same_items, faces'⟩ := run faces follow
    refine ⟨⟨c.spanTo c', items'⟩, c', ?_, ?_, faces'⟩
    · simp only [selectionSet, nested_self, lifted_self]
      rw [here_bind, bind_eq read]
      rfl
    · simpa [same, SelectionSet.same, Selection.sameAll_eq_same] using same_items

theorem operationKind_faces {kind : OperationKind} (faces : c.Faces (.name kind.keyword :: ks))
    (more : ks ≠ []) : ∃ c', operationKind c = .ok (kind, c') ∧ c'.Faces ks := by
  obtain ⟨c', consumed, faces'⟩ := consume_faces faces more
  refine ⟨c', ?_, faces'⟩
  rw [operationKind, peek_bind]
  simp only [faces.kind, OperationKind.ofKeyword?_keyword]
  exact bind_eq consumed

theorem isName_keyword (kind : OperationKind) : IsName kind.keyword := by cases kind <;> decide

theorem optionalDefault_restores (position : ConstPosition) {o : Option Value}
    (legal : ∀ v ∈ o, v.tree.Legal true levels) :
    Restores (optionalDefault position levels) [.punctuator .equals] (defaultSpelling o) o := by
  intro ks spelled
  cases o with
  | none =>
    cases (spelled : ks = [])
    refine ⟨.nil, ?_⟩
    intro c rest faces follow
    refine ⟨none, c, ?_, rfl, faces⟩
    simp only [optionalDefault, lifted_self]
    rw [bind_eq (accept_none faces follow (by simp)), if_neg (by simp)]
    rfl
  | some v =>
    rw [defaultSpelling, maybe, mem_word_mul] at spelled
    obtain ⟨later, spelled, rfl⟩ := spelled
    have read : Restores (value (some position) levels) [] v.spelling v :=
      value_restores (legal v rfl)
    obtain ⟨words, run⟩ := read spelled
    refine ⟨by simp [words], ?_⟩
    intro c rest faces follow
    obtain ⟨c₁, equals, faces₁⟩ := accept_faces faces (follow.any later).ne_nil
    obtain ⟨v', c₂, read, same_v, faces₂⟩ := run faces₁ (follow.mono (by simp))
    refine ⟨some v', c₂, ?_, same_v, faces₂⟩
    simp only [optionalDefault, lifted_self]
    rw [bind_eq equals, if_pos rfl]
    exact map_ok.mpr ⟨v', read, rfl⟩

theorem constDirectives_restores {ds : List Directive}
    (legal : ∀ d ∈ ds, d.tree.Legal true levels) :
    Restores (constDirectives levels) [.punctuator .atSign, .punctuator .openParen]
      (row (·.spelling) ds) ds :=
  directives_restores (fun _ legal => value_restores legal) legal

/-- What the rules say of directives makes their trees legal where nothing may vary. -/
theorem legal_constDirectives {ds : List Directive} (legal : ∀ d ∈ ds, d.tree.Legal const levels)
    (constant : AllConst ds) : ∀ d ∈ ds, d.tree.Legal true levels :=
  fun d hd => (legal d hd).ofConst (constant d hd)

theorem legal_constDefault {o : Option Value} (legal : ∀ v ∈ o.toList, v.tree.Legal const levels)
    (constant : ∀ v ∈ o, v.tree.IsConst) : ∀ v ∈ o, v.tree.Legal true levels :=
  fun v hv => (legal v (Option.mem_toList.mpr hv)).ofConst (constant v hv)

theorem avoids_default {o : Option Value} (free : .punctuator .equals ∉ bad)
    (spelled : ks ∈ defaultSpelling o) : Avoids bad ks :=
  .maybe (fun _ _ _ spelled => (follows_word spelled free).avoids) spelled

theorem variableDefinition_restores {d : VariableDefinition} (legal : d.tree.Legal const levels) :
    Restores (variableDefinition levels)
      [.punctuator .bang, .punctuator .equals, .punctuator .atSign, .punctuator .openParen]
      d.spelling d := by
  obtain ⟨⟨const_default, const_directives⟩, below⟩ := legal.flat rfl
  simp only [List.forall_mem_append, List.forall_mem_map, List.forall_mem_cons] at below
  obtain ⟨⟨⟨legal_n, legal_t, -⟩, legal_default⟩, legal_ds⟩ := below
  intro ks spelled
  simp only [VariableDefinition.spelling, mul_assoc, Language.mem_mul, mem_word] at spelled
  obtain ⟨_, rfl, _, ⟨first, named, _, ⟨_, rfl, _, ⟨second, typed, _, ⟨third, defaulted, last,
    directed, rfl⟩, rfl⟩, rfl⟩, rfl⟩, rfl⟩ := spelled
  have variable_spelled : .punctuator .dollar :: first ∈ mark .dollar * d.name.spelling :=
    mem_word_mul.mpr ⟨first, named, rfl⟩
  obtain ⟨words₁, run₁⟩ := variableName_restores legal_n variable_spelled
  obtain ⟨words₂, run₂⟩ := typeRef_restores legal_t typed
  obtain ⟨words₃, run₃⟩ :=
    optionalDefault_restores .variableDefault (legal_constDefault legal_default const_default)
      defaulted
  obtain ⟨words₄, run₄⟩ :=
    constDirectives_restores (legal_constDirectives legal_ds const_directives) directed
  refine ⟨by simpa [words₂, words₃, words₄] using words₁, ?_⟩
  intro c rest faces follow
  simp only [List.cons_append, List.nil_append, List.append_assoc] at faces
  have next₃ : Follows [.punctuator .bang, .punctuator .equals] (last ++ rest) :=
    .append (avoids_directives (by simp) directed) (follow.mono (by simp +contextual))
  have next₂ : Follows [.punctuator .bang] (third ++ (last ++ rest)) :=
    .append (avoids_default (by simp) defaulted) (next₃.mono (by simp))
  obtain ⟨n, c₁, read_name, same_n, faces₁⟩ := run₁ faces (by simp)
  obtain ⟨c₂, colon, faces₂⟩ := expect_faces faces₁ (next₂.any second).ne_nil
  obtain ⟨t, c₃, read_type, same_t, faces₃⟩ := run₂ faces₂ next₂
  obtain ⟨v, c₄, read_default, same_v, faces₄⟩ := run₃ faces₃ (next₃.mono (by simp))
  obtain ⟨ds, c₅, read_directives, same_ds, faces₅⟩ := run₄ faces₄ (follow.mono (by simp))
  refine ⟨⟨c.spanTo c₅, n, t, v, ds⟩, c₅, ?_, ?_, faces₅⟩
  · simp only [variableDefinition, lifted_self]
    rw [here_bind, bind_eq read_name, bind_eq colon, bind_eq read_type, bind_eq read_default,
      bind_eq read_directives]
    rfl
  · simp only [same, sameOrigin_false, Bool.true_and, Bool.and_eq_true]
    exact ⟨⟨⟨same_n, same_t⟩, same_v⟩, same_ds⟩

theorem follows_variableDefinition {d : VariableDefinition} (spelled : ks ∈ d.spelling) :
    Follows [.punctuator .closeParen, .punctuator .bang, .punctuator .equals, .punctuator .atSign,
      .punctuator .openParen] ks := by
  simp only [VariableDefinition.spelling, mul_assoc] at spelled
  exact follows_word spelled (by simp)

/-- An operation from its variables on. -/
theorem operationRest_restores {d : OperationDefinition} {n : Option Name} (start : Position)
    (same_n : same false n d.name = true)
    (legal_variables : ∀ v ∈ d.variableDefinitions, v.tree.Legal false levels)
    (legal_directives : ∀ x ∈ d.directives, x.tree.Legal false levels)
    (legal_set : d.selectionSet.tree.Legal false levels) :
    Restores
      (do
        let variableDefinitions ← optionalMany .openParen .closeParen (variableDefinition levels)
        let ds ← directives (value none levels)
        let inner ← selectionSet levels
        return ⟨some (← spanFrom start), d.kind, n, variableDefinitions, ds, inner⟩)
      [] (block .openParen .closeParen (·.spelling) d.variableDefinitions *
        (row (·.spelling) d.directives * d.selectionSet.spelling)) d := by
  have values : ∀ v : Value, v.tree.Legal false levels →
      Restores (value none levels) [] v.spelling v := fun v legal => value_restores legal
  intro ks spelled
  simp only [Language.mem_mul] at spelled
  obtain ⟨first, defined, _, ⟨middle, directed, last, selected, rfl⟩, rfl⟩ := spelled
  have all : Restores (optionalMany .openParen .closeParen (variableDefinition levels)) _ _
      d.variableDefinitions :=
    optionalMany_restores (fun v hv => variableDefinition_restores (legal_variables v hv))
      (fun v _ _ => follows_variableDefinition) (by simp)
  obtain ⟨words₁, run₁⟩ := all defined
  obtain ⟨words₂, run₂⟩ := directives_restores values legal_directives directed
  obtain ⟨words₃, run₃⟩ := selectionSet_restores legal_set selected
  refine ⟨by simp [words₁, words₂, words₃], ?_⟩
  intro c rest faces follow
  simp only [List.append_assoc] at faces
  have next₂ : Follows [.punctuator .atSign, .punctuator .openParen] (last ++ rest) :=
    (follows_selectionSet (by simp) selected).append_left rest
  have next₁ : Follows [.punctuator .openParen] (middle ++ (last ++ rest)) :=
    .append (avoids_directives (by simp) directed) (next₂.mono (by simp))
  obtain ⟨vs, c₁, read_variables, same_vs, faces₁⟩ := run₁ faces next₁
  obtain ⟨ds, c₂, read_directives, same_ds, faces₂⟩ := run₂ faces₁ next₂
  obtain ⟨inner, c₃, read_set, same_set, faces₃⟩ := run₃ faces₂ follow
  refine ⟨⟨some ⟨c₃.source, start, c₃.lastEnd⟩, d.kind, n, vs, ds, inner⟩, c₃, ?_, ?_, faces₃⟩
  · rw [bind_eq read_variables, bind_eq read_directives, bind_eq read_set]
    rfl
  · simp only [same, sameOrigin_false, beq_self_eq_true, Bool.true_and, Bool.and_eq_true]
    exact ⟨⟨⟨same_n, same_vs⟩, same_ds⟩, same_set⟩

/-- What comes after the name of an operation starts with a mark. -/
theorem mark_of_operationRest {vs : List VariableDefinition} {ds : List Directive}
    {s : SelectionSet}
    (spelled : ks ∈ block .openParen .closeParen (·.spelling) vs *
      (row (·.spelling) ds * s.spelling)) : ∃ m later, ks = .punctuator m :: later := by
  cases vs with
  | nil => exact mark_of_directives (by simpa [block] using spelled)
  | cons v vs =>
    rw [block_cons, mul_assoc, mul_assoc, mem_word_mul] at spelled
    obtain ⟨later, -, rfl⟩ := spelled
    exact ⟨_, later, rfl⟩

/-- After the keyword of an operation without a name no word follows. -/
theorem anonymousOperation_restores {d : OperationDefinition} (no_name : d.name = none)
    (legal_variables : ∀ v ∈ d.variableDefinitions, v.tree.Legal false levels)
    (legal_directives : ∀ x ∈ d.directives, x.tree.Legal false levels)
    (legal_set : d.selectionSet.tree.Legal false levels) :
    Restores (operation levels) [] (d.spelling .plain) d := by
  have same_name : same false none d.name = true := by rw [no_name, same_none]
  intro ks spelled
  obtain spelled | ⟨free, -⟩ := spelled
  swap
  · cases free
  simp only [no_name, maybe, mul_one, mul_assoc, mem_word_mul] at spelled
  obtain ⟨last, others, rfl⟩ := spelled
  have others_restore := fun (start : Position) =>
    operationRest_restores start same_name legal_variables legal_directives legal_set others
  have words : AllWords last := (others_restore .first).1
  refine ⟨by simpa [isName_keyword] using words, ?_⟩
  intro c rest faces follow
  rw [List.cons_append] at faces
  have brace : c.current.kind ≠ .punctuator .openBrace := by simp [faces.kind]
  obtain ⟨c₁, read_kind, faces₁⟩ := operationKind_faces faces (follow.any last).ne_nil
  obtain ⟨d', c₂, read, same_d, faces₂⟩ := (others_restore c.current.start).2 faces₁ follow
  refine ⟨d', c₂, ?_, same_d, faces₂⟩
  obtain ⟨m, later, rfl⟩ := mark_of_operationRest others
  have kind : c₁.current.kind = .punctuator m := faces₁.kind
  simp only [operation, lifted_self]
  rw [here_bind, atMark_bind, if_neg (by simp [brace]), bind_eq read_kind, peek_bind,
    if_neg (by simp [kind, TokenKind.isName])]
  exact read

/-- A word after the keyword of an operation is its name. -/
theorem namedOperation_restores {d : OperationDefinition} {n : Name} (named : d.name = some n)
    (legal_name : n.tree.Legal false levels)
    (legal_variables : ∀ v ∈ d.variableDefinitions, v.tree.Legal false levels)
    (legal_directives : ∀ x ∈ d.directives, x.tree.Legal false levels)
    (legal_set : d.selectionSet.tree.Legal false levels) :
    Restores (operation levels) [] (d.spelling .plain) d := by
  intro ks spelled
  obtain spelled | ⟨free, -⟩ := spelled
  swap
  · cases free
  simp only [named, maybe, mul_assoc, mem_word_mul] at spelled
  obtain ⟨_, spelled, rfl⟩ := spelled
  rw [Language.mem_mul] at spelled
  obtain ⟨first, calling, last, others, rfl⟩ := spelled
  have others_restore := fun (start : Position) (n' : Name)
      (same_n : same false (some n') d.name = true) =>
    operationRest_restores start same_n legal_variables legal_directives legal_set others
  obtain ⟨words, run⟩ := name_restores legal_name calling
  have words' : AllWords last := (others_restore .first n (by simp [named, same])).1
  refine ⟨by simp [isName_keyword, words, words'], ?_⟩
  intro c rest faces follow
  simp only [List.cons_append, List.append_assoc] at faces
  have brace : c.current.kind ≠ .punctuator .openBrace := by simp [faces.kind]
  obtain ⟨c₁, read_kind, faces₁⟩ := operationKind_faces faces ((follow.any last).any first).ne_nil
  obtain ⟨n', c₂, read_name, same_n, faces₂⟩ := run faces₁ (follow.any last)
  have same_name : same false (some n') d.name = true := by
    rw [named]
    exact same_n
  obtain ⟨d', c₃, read, same_d, faces₃⟩ :=
    (others_restore c.current.start n' same_name).2 faces₂ follow
  refine ⟨d', c₃, ?_, same_d, faces₃⟩
  have word : c₁.current.kind.isName = true := by
    cases mem_word.mp calling
    simp [faces₁.kind, TokenKind.isName]
  simp only [operation, lifted_self]
  rw [here_bind, atMark_bind, if_neg (by simp [brace]), bind_eq read_kind, peek_bind, if_pos word,
    bind_eq (map_ok.mpr ⟨n', read_name, rfl⟩)]
  exact read

/-- Selections without a keyword are a query. -/
theorem bareOperation_restores {d : OperationDefinition} (bare : d.isBare)
    (legal_set : d.selectionSet.tree.Legal false levels) :
    Restores (operation levels) [] d.selectionSet.spelling d := by
  obtain ⟨kind, name, no_variables, no_directives⟩ := bare
  intro ks selected
  obtain ⟨words, run⟩ := selectionSet_restores legal_set selected
  refine ⟨words, ?_⟩
  intro c rest faces follow
  obtain ⟨inner, c', read, same_set, faces'⟩ := run faces follow
  refine ⟨⟨c.spanTo c', .query, none, [], [], inner⟩, c', ?_, ?_, faces'⟩
  · rw [SelectionSet.spelling_eq, mul_assoc] at selected
    have brace := kind_of_word selected faces
    simp only [operation, lifted_self]
    rw [here_bind, atMark_bind, if_pos (decide_eq_true brace), bind_eq read]
    rfl
  · simp only [same, kind, name, no_variables, no_directives, sameOrigin_false, beq_self_eq_true,
      List.isEqv, Bool.true_and]
    exact same_set

theorem operation_restores {style : Style} {d : OperationDefinition}
    (legal : d.tree.Legal false levels) :
    Restores (operation levels) [] (d.spelling style) d := by
  obtain ⟨o, kind, name, vs, ds, set⟩ := d
  obtain ⟨-, below⟩ := legal.flat rfl
  simp only [List.forall_mem_append, List.forall_mem_map, List.forall_mem_singleton] at below
  obtain ⟨⟨⟨legal_n, legal_vs⟩, legal_ds⟩, legal_set⟩ := below
  rintro ks (keyworded | ⟨-, bare, selected⟩)
  · cases name with
    | none =>
      exact anonymousOperation_restores rfl legal_vs legal_ds legal_set (.inl keyworded)
    | some n =>
      exact namedOperation_restores rfl (legal_n n (by simp)) legal_vs legal_ds legal_set
        (.inl keyworded)
  · exact bareOperation_restores bare legal_set selected

theorem fragment_restores {d : FragmentDefinition} (legal : d.tree.Legal false levels) :
    Restores (fragment levels) [] d.spelling d := by
  obtain ⟨free, below⟩ := legal.flat rfl
  simp only [List.forall_mem_append, List.forall_mem_map, List.forall_mem_cons] at below
  obtain ⟨⟨⟨legal_n, legal_t, -⟩, legal_ds⟩, legal_set, -⟩ := below
  have other : d.name.value ≠ "on" := free
  have unreserved : d.name.value ∉ reservedWords .fragmentName := by simp [reservedWords, other]
  intro ks spelled
  simp only [FragmentDefinition.spelling, mul_assoc, Language.mem_mul, mem_word] at spelled
  obtain ⟨_, rfl, _, ⟨first, named, _, ⟨_, rfl, _, ⟨second, typed, _, ⟨third, directed, last,
    selected, rfl⟩, rfl⟩, rfl⟩, rfl⟩, rfl⟩ := spelled
  have values : ∀ v : Value, v.tree.Legal false levels →
      Restores (value none levels) [] v.spelling v := fun v legal => value_restores legal
  obtain ⟨words₁, run₁⟩ := unreservedName_restores legal_n unreserved named
  obtain ⟨words₂, run₂⟩ := namedType_restores legal_t typed
  obtain ⟨words₃, run₃⟩ := directives_restores values legal_ds directed
  obtain ⟨words₄, run₄⟩ := selectionSet_restores legal_set selected
  have known : IsName "fragment" ∧ IsName "on" := by decide
  refine ⟨by simp [words₁, words₂, words₃, words₄, known], ?_⟩
  intro c rest faces follow
  simp only [List.cons_append, List.nil_append, List.append_assoc] at faces
  have next₃ : Follows [.punctuator .atSign, .punctuator .openParen] (last ++ rest) :=
    (follows_selectionSet (by simp) selected).append_left rest
  have next₂ := next₃.any third
  obtain ⟨c₁, keyword, faces₁⟩ := expectKeyword_faces faces (by simp)
  obtain ⟨n, c₂, read_name, same_n, faces₂⟩ := run₁ faces₁ (by simp)
  obtain ⟨c₃, on, faces₃⟩ := expectKeyword_faces faces₂ (next₂.any second).ne_nil
  obtain ⟨t, c₄, read_type, same_t, faces₄⟩ := run₂ faces₃ next₂
  obtain ⟨ds, c₅, read_directives, same_ds, faces₅⟩ := run₃ faces₄ next₃
  obtain ⟨inner, c₆, read_set, same_set, faces₆⟩ := run₄ faces₅ follow
  refine ⟨⟨c.spanTo c₆, n, t, ds, inner⟩, c₆, ?_, ?_, faces₆⟩
  · simp only [fragment, lifted_self]
    rw [here_bind, bind_eq keyword, bind_eq read_name, bind_eq on, bind_eq read_type,
      bind_eq read_directives, bind_eq read_set]
    rfl
  · simp only [same, sameOrigin_false, Bool.true_and, Bool.and_eq_true]
    exact ⟨⟨⟨same_n, same_t⟩, same_ds⟩, same_set⟩

end GraphQL.Parser
