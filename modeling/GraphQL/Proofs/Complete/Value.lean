import GraphQL.Parser.Value
import GraphQL.Proofs.Complete.Repetition
import GraphQL.Proofs.Text.Float

/-! The parsers of names, values and types give back what a spelling was made from. -/
namespace GraphQL.Parser

open Spelling

variable {const : Bool} {levels : Nat} {bad ks rest : List TokenKind} {c : Cursor}

@[simp] theorem isWord_name {text : String} : (TokenKind.name text).IsWord ↔ IsName text := by
  constructor
  · intro h
    exact h.name text rfl
  · intro h
    exact ⟨by simp, by simp, by simpa using h⟩

theorem name_faces {text : String} (faces : c.Faces (.name text :: ks)) (more : ks ≠ []) :
    ∃ n c', name c = .ok (n, c') ∧ n.value = text ∧ c'.Faces ks := by
  obtain ⟨c', consumed, faces'⟩ := consume_faces faces more
  refine ⟨⟨some (c.current.origin c'.source), text⟩, c', ?_, rfl, faces'⟩
  rw [name, peek_bind]
  simp only [faces.kind]
  rw [bind_eq consumed, originOf_bind]
  rfl

theorem name_restores {n : Name} (legal : n.tree.Legal const levels) :
    Restores name [] n.spelling n := by
  obtain ⟨lawful, -⟩ := legal.flat rfl
  intro ks spelled
  rw [Name.spelling, mem_word] at spelled
  subst spelled
  have word : IsName n.value := lawful
  refine ⟨by simp [word], ?_⟩
  intro c rest faces follow
  obtain ⟨n', c', named, value, faces'⟩ := name_faces faces follow.ne_nil
  exact ⟨n', c', named, by simp [same, value], faces'⟩

theorem unreservedName_restores {role : ReservingRole} {n : Name}
    (legal : n.tree.Legal const levels) (free : n.value ∉ reservedWords role) :
    Restores (unreservedName role) [] n.spelling n := by
  intro ks spelled
  obtain ⟨words, run⟩ := name_restores legal spelled
  refine ⟨words, ?_⟩
  intro c rest faces follow
  obtain ⟨n', c', named, same_n, faces'⟩ := run faces follow
  refine ⟨n', c', ?_, same_n, faces'⟩
  have value : n'.value = n.value := by simpa [same] using same_n
  rw [unreservedName, peek_bind, bind_eq named, if_neg (value ▸ free)]
  rfl

theorem variableName_restores {n : Name} (legal : n.tree.Legal const levels) :
    Restores variableName [] (mark .dollar * n.spelling) n := by
  intro ks spelled
  rw [mem_word_mul] at spelled
  obtain ⟨later, spelled, rfl⟩ := spelled
  obtain ⟨words, run⟩ := name_restores legal spelled
  refine ⟨by simp [words], ?_⟩
  intro c rest faces follow
  obtain ⟨c₁, dollar, faces₁⟩ := expect_faces faces (by simp [follow.ne_nil])
  obtain ⟨n', c₂, named, same_n, faces₂⟩ := run faces₁ follow
  refine ⟨n', c₂, ?_, same_n, faces₂⟩
  rw [variableName, bind_eq dollar]
  exact named

theorem words_string {s : StringValue} (spelled : ks ∈ s.spelling) : AllWords ks := by
  obtain ⟨k, ⟨cooked, -⟩, rfl⟩ := mem_oneOf.mp spelled
  have word : k.IsWord := by
    cases k with
    | string literal | blockString literal => exact ⟨by simp, by simp, by simp⟩
    | _ => simp [TokenKind.stringValue?] at cooked
  simpa using word

theorem optionalString_faces {s : StringValue} (spelled : ks ∈ s.spelling)
    (faces : c.Faces (ks ++ rest)) (more : rest ≠ []) :
    ∃ s' c', optionalString c = .ok (some s', c') ∧ same false s' s = true ∧ c'.Faces rest := by
  obtain ⟨k, ⟨cooked, block⟩, rfl⟩ := mem_oneOf.mp spelled
  obtain ⟨c', consumed, faces'⟩ := consume_faces faces more
  have kind := faces.kind
  refine ⟨⟨some (c.current.origin c'.source), s.value, k.isBlockString⟩, c', ?_,
    by simp [same, block], faces'⟩
  rw [optionalString, peek_bind]
  simp only [kind, cooked]
  rw [bind_eq consumed, originOf_bind]
  rfl

/-- A token that a value is made of alone. -/
theorem literal_restores {position : Option ConstPosition} {p : Parser Value} {k : TokenKind}
    {v : Value} (word : k.IsWord)
    (reads : ∀ ⦃c c'⦄, c.current.kind = k → consume c = .ok (c.current, c') →
      ∃ v', valueWith position p c = .ok (v', c') ∧ same false v' v = true) :
    Restores (valueWith position p) [] (Spelling.word k) v := by
  intro ks spelled
  rw [mem_word] at spelled
  subst spelled
  refine ⟨by simp [word], ?_⟩
  intro c rest faces follow
  obtain ⟨c', consumed, faces'⟩ := consume_faces faces follow.ne_nil
  obtain ⟨v', read, same_v⟩ := reads faces.kind consumed
  exact ⟨v', c', read, same_v, faces'⟩

theorem word_restores {position : Option ConstPosition} {p : Parser Value} {text : String}
    {v : Value} (known : IsName text) (meaning : ∀ o, same false (wordValue o text) v = true) :
    Restores (valueWith position p) [] (keyword text) v := by
  apply literal_restores (isWord_name.mpr known)
  intro c c' kind consumed
  refine ⟨wordValue (c.spanTo c') text, ?_, meaning _⟩
  rw [valueWith_leaf (by simp [kind]), leafValue, peek_bind]
  simp only [kind]
  rw [bind_eq consumed, spanFrom_bind]
  rfl

theorem int_restores {position : Option ConstPosition} {p : Parser Value} {n : Int32}
    {o : Option Origin} : Restores (valueWith position p) [] (intSpelling n) (.int o n) := by
  intro ks spelled
  obtain ⟨k, ⟨literal, rfl, denoted⟩, rfl⟩ := mem_oneOf.mp spelled
  refine literal_restores ⟨by simp, by simp, by simp⟩ ?_ (mem_word.mpr rfl)
  intro c c' kind consumed
  refine ⟨.int (c.spanTo c') n, ?_, by simp [same, Value.same]⟩
  rw [valueWith_leaf (by simp [kind]), leafValue, peek_bind]
  simp only [kind]
  rw [bind_eq consumed, spanFrom_bind]
  simp only [denoted]
  rfl

theorem float_restores {position : Option ConstPosition} {p : Parser Value} {x : Float}
    {o : Option Origin} : Restores (valueWith position p) [] (floatSpelling x) (.float o x) := by
  intro ks spelled
  obtain ⟨k, ⟨literal, rfl, denoted⟩, rfl⟩ := mem_oneOf.mp spelled
  refine literal_restores ⟨by simp, by simp, by simp⟩ ?_ (mem_word.mpr rfl)
  intro c c' kind consumed
  refine ⟨.float (c.spanTo c') x, ?_,
    by simp [same, Value.same, Text.Decimal.beq_of_toFloat? denoted]⟩
  rw [valueWith_leaf (by simp [kind]), leafValue, peek_bind]
  simp only [kind]
  rw [bind_eq consumed, spanFrom_bind]
  simp only [denoted]
  rfl

theorem string_restores {position : Option ConstPosition} {p : Parser Value} {s : StringValue} :
    Restores (valueWith position p) [] s.spelling (.string s) := by
  intro ks spelled
  refine ⟨words_string spelled, ?_⟩
  intro c rest faces follow
  obtain ⟨s', c', read, same_s, faces'⟩ := optionalString_faces spelled faces follow.ne_nil
  refine ⟨.string s', c', ?_, by simpa [same, Value.same] using same_s, faces'⟩
  obtain ⟨k, ⟨cooked, -⟩, rfl⟩ := mem_oneOf.mp spelled
  have kind := faces.kind
  cases k with
  | string literal | blockString literal =>
    rw [valueWith_leaf (by simp [kind]), leafValue, peek_bind]
    simp only [kind]
    rw [bind_eq read]
    rfl
  | _ => simp [TokenKind.stringValue?] at cooked

/-- No value starts with a mark that closes a list. -/
theorem follows_value {v : Value} (spelled : ks ∈ v.spelling) :
    Follows [.punctuator .closeBracket] ks := by
  cases v with
  | boolean o b =>
    cases b
    all_goals
      rw [Value.spelling, mem_word] at spelled
      simp [spelled]
  | enum | null =>
    rw [Value.spelling, mem_word] at spelled
    simp [spelled]
  | int | float =>
    obtain ⟨k, ⟨literal, rfl, -⟩, rfl⟩ := mem_oneOf.mp spelled
    simp
  | string s =>
    obtain ⟨k, ⟨cooked, -⟩, rfl⟩ := mem_oneOf.mp spelled
    cases k <;> simp [TokenKind.stringValue?] at cooked ⊢
  | list | object =>
    rw [Value.spelling, mul_assoc, mem_word_mul] at spelled
    obtain ⟨later, -, rfl⟩ := spelled
    simp
  | «variable» o n =>
    rw [Value.spelling, mem_word_mul] at spelled
    obtain ⟨later, -, rfl⟩ := spelled
    simp

theorem objectField_restores {p : Parser Value} {f : ObjectField}
    (values : ∀ v : Value, v.tree.Legal const levels → Restores p [] v.spelling v)
    (legal : f.tree.Legal const levels) : Restores (objectField p) [] f.spelling f := by
  obtain ⟨o, n, v⟩ := f
  obtain ⟨-, below⟩ := legal.flat rfl
  simp only [List.forall_mem_cons] at below
  intro ks spelled
  rw [ObjectField.spelling_eq, Language.mem_mul] at spelled
  obtain ⟨first, spelled, last, valued, rfl⟩ := spelled
  rw [mem_mul_word] at spelled
  obtain ⟨first, named, rfl⟩ := spelled
  obtain ⟨words, run⟩ := name_restores below.1 named
  obtain ⟨words', run'⟩ := values v below.2.1 valued
  refine ⟨by simp [words, words'], ?_⟩
  intro c rest faces follow
  simp only [List.append_assoc] at faces
  obtain ⟨n', c₁, read_name, same_n, faces₁⟩ := run faces (by simp)
  obtain ⟨c₂, colon, faces₂⟩ := expect_faces faces₁ (by simp [follow.ne_nil])
  obtain ⟨v', c₃, read_value, same_v, faces₃⟩ := run' faces₂ follow
  refine ⟨⟨c.spanTo c₃, n', v'⟩, c₃, ?_, ?_, faces₃⟩
  · simp only [objectField, lifted_self]
    rw [here_bind, bind_eq read_name, bind_eq colon, bind_eq read_value]
    rfl
  · simpa [same, ObjectField.same] using And.intro same_n same_v

theorem follows_objectField {f : ObjectField} (spelled : ks ∈ f.spelling) :
    Follows [.punctuator .closeBrace] ks := by
  rw [ObjectField.spelling_eq, mul_assoc, Name.spelling, mem_word_mul] at spelled
  obtain ⟨later, -, rfl⟩ := spelled
  simp

theorem variable_restores {p : Parser Value} {o : Option Origin} {n : Name}
    (legal : n.tree.Legal const levels) :
    Restores (valueWith none p) [] (mark .dollar * n.spelling) (.variable o n) := by
  intro ks spelled
  obtain ⟨words, run⟩ := variableName_restores legal spelled
  refine ⟨words, ?_⟩
  intro c rest faces follow
  obtain ⟨n', c', named, same_n, faces'⟩ := run faces follow
  refine ⟨.variable (c.spanTo c') n', c', ?_, by simpa [same, Value.same] using same_n, faces'⟩
  have kind := kind_of_word spelled faces
  rw [valueWith_leaf (by simp [kind]), leafValue, peek_bind]
  simp only [kind]
  rw [bind_eq named, spanFrom_bind]
  rfl

theorem list_restores {position : Option ConstPosition} {p : Parser Value} {o : Option Origin}
    {vs : List Value} (items : ∀ v ∈ vs, Restores p [] v.spelling v) :
    Restores (valueWith position p) [] (Value.list o vs).spelling (.list o vs) := by
  have all : Restores (any .openBracket .closeBracket p) []
      (mark .openBracket * row (·.spelling) vs * mark .closeBracket) vs :=
    any_restores items (fun v _ _ => follows_value) (by simp)
  intro ks spelled
  rw [Value.spelling, Value.spellings_eq_row] at spelled
  obtain ⟨words, run⟩ := all spelled
  refine ⟨words, ?_⟩
  intro c rest faces follow
  obtain ⟨vs', c', listed, same_vs, faces'⟩ := run faces follow
  refine ⟨.list (c.spanTo c') vs', c', ?_, ?_, faces'⟩
  · rw [mul_assoc] at spelled
    have kind := kind_of_word spelled faces
    simp only [valueWith, lifted_self]
    rw [peek_bind]
    simp only [kind]
    rw [bind_eq listed, spanFrom_bind]
    rfl
  · simpa [same, Value.same, Value.sameAll_eq_same] using same_vs

theorem object_restores {position : Option ConstPosition} {p : Parser Value} {o : Option Origin}
    {fs : List ObjectField} (items : ∀ f ∈ fs, Restores (objectField p) [] f.spelling f) :
    Restores (valueWith position p) [] (Value.object o fs).spelling (.object o fs) := by
  have all : Restores (any .openBrace .closeBrace (objectField p)) []
      (mark .openBrace * row (·.spelling) fs * mark .closeBrace) fs :=
    any_restores items (fun f _ _ => follows_objectField) (by simp)
  intro ks spelled
  rw [Value.spelling, ObjectField.spellings_eq_row] at spelled
  obtain ⟨words, run⟩ := all spelled
  refine ⟨words, ?_⟩
  intro c rest faces follow
  obtain ⟨fs', c', listed, same_fs, faces'⟩ := run faces follow
  refine ⟨.object (c.spanTo c') fs', c', ?_, ?_, faces'⟩
  · rw [mul_assoc] at spelled
    have kind := kind_of_word spelled faces
    simp only [valueWith, lifted_self]
    rw [peek_bind]
    simp only [kind]
    rw [bind_eq listed, spanFrom_bind]
    rfl
  · simpa [same, Value.same, ObjectField.sameAll_eq_same] using same_fs

/-- Values, given that the values in them are given back. -/
theorem valueWith_restores {position : Option ConstPosition} {p : Parser Value} {v : Value}
    (values : ∀ v : Value, v.tree.Legal position.isSome levels → Restores p [] v.spelling v)
    (legal : v.tree.Legal position.isSome (levels + 1)) :
    Restores (valueWith position p) [] v.spelling v := by
  cases v with
  | boolean o b =>
    cases b with
    | false => exact word_restores (by decide) fun o => by simp [wordValue, same, Value.same]
    | true => exact word_restores (by decide) fun o => by simp [wordValue, same, Value.same]
  | null o => exact word_restores (by decide) fun o => by simp [wordValue, same, Value.same]
  | enum o text =>
    obtain ⟨⟨known, free⟩, -⟩ := legal.nested rfl
    simp only [literalWords, List.mem_cons, List.not_mem_nil, not_or] at free
    exact word_restores known fun o => by simp [wordValue, same, Value.same, free]
  | int o n => exact int_restores
  | float o x => exact float_restores
  | string s => exact string_restores
  | «variable» o n =>
    obtain ⟨-, -, parts⟩ := legal.nested rfl
    have free : position = none := by
      have constant := legal.2.1
      simpa [Node.kind, Value.kind] using constant
    subst free
    exact variable_restores (parts _ List.mem_cons_self)
  | list o vs =>
    obtain ⟨-, -, parts⟩ := legal.nested rfl
    rw [Value.trees_eq_map, List.forall_mem_map] at parts
    exact list_restores fun v hv => values v (parts v hv)
  | object o fs =>
    obtain ⟨-, -, parts⟩ := legal.nested rfl
    rw [ObjectField.trees_eq_map, List.forall_mem_map] at parts
    exact object_restores fun f hf => objectField_restores values (parts f hf)

/-- Every value is a level of its own. -/
theorem levels_pos {v : Value} (legal : v.tree.Legal const levels) : 0 < levels := by
  cases v <;> exact (legal.nested rfl).2.1

/-- Values within a limit of levels. -/
theorem value_restores {position : Option ConstPosition} {v : Value}
    (legal : v.tree.Legal position.isSome levels) :
    Restores (value position levels) [] v.spelling v := by
  induction levels generalizing v with
  | zero => exact absurd (levels_pos legal) (Nat.lt_irrefl 0)
  | succ levels ih => exact valueWith_restores (fun v legal => ih legal) legal

theorem namedType_restores {t : NamedType} (legal : t.tree.Legal const levels) :
    Restores namedType [] t.spelling t := by
  obtain ⟨-, below⟩ := legal.flat rfl
  rw [List.forall_mem_singleton] at below
  intro ks spelled
  obtain ⟨words, run⟩ := name_restores below spelled
  refine ⟨words, ?_⟩
  intro c rest faces follow
  obtain ⟨n, c', named, same_n, faces'⟩ := run faces follow
  refine ⟨⟨n.origin, n⟩, c', ?_, by simpa [same] using same_n, faces'⟩
  rw [namedType, bind_eq named]
  rfl

/-- What the mark after a type adds to it. -/
theorem nonNullMark_restores {t : TypeRef} {bare : NullableType} (start : Position)
    (same_bare : same false bare t.bare = true) :
    Restores
      (do
        if ← accept .bang then return .nonNull (some (← spanFrom start)) bare
        else return .nullable bare)
      [.punctuator .bang] t.markSpelling t := by
  intro ks spelled
  cases t with
  | nullable t =>
    cases (spelled : ks = [])
    refine ⟨.nil, ?_⟩
    intro c rest faces follow
    have other : accept .bang c = .ok (false, c) := accept_none faces follow (by simp)
    refine ⟨.nullable bare, c, ?_, by simpa [same, TypeRef.same, TypeRef.bare] using same_bare,
      faces⟩
    rw [bind_eq other, if_neg (by simp)]
    rfl
  | nonNull o t =>
    rw [TypeRef.markSpelling, mem_word] at spelled
    subst spelled
    refine ⟨by simp, ?_⟩
    intro c rest faces follow
    obtain ⟨c', accepted, faces'⟩ := accept_faces faces follow.ne_nil
    refine ⟨.nonNull (some ⟨c'.source, start, c'.lastEnd⟩) bare, c', ?_,
      by simpa [same, TypeRef.same, TypeRef.bare] using same_bare, faces'⟩
    rw [bind_eq accepted, if_pos rfl, spanFrom_bind]
    rfl

theorem words_markSpelling {t : TypeRef} (spelled : ks ∈ t.markSpelling) : AllWords ks := by
  cases t with
  | nullable t =>
    cases (spelled : ks = [])
    exact .nil
  | nonNull o t => simp [mem_word.mp spelled]

/-- A name and the mark after it, if there is one. -/
theorem namedRef_restores {p : Parser TypeRef} {t : TypeRef} {named : NamedType}
    (bare : t.bare = .named named) (legal : named.tree.Legal const levels) :
    Restores (typeRefWith p) [.punctuator .bang] t.spelling t := by
  intro ks spelled
  rw [TypeRef.spelling_eq, bare, Language.mem_mul] at spelled
  obtain ⟨first, spelled, last, marked, rfl⟩ := spelled
  obtain ⟨words, run⟩ := namedType_restores legal spelled
  refine ⟨by simp [words, words_markSpelling marked], ?_⟩
  intro c rest faces follow
  rw [List.append_assoc] at faces
  have other : accept .openBracket c = .ok (false, c) := by
    rw [NullableType.spelling, NamedType.spelling, Name.spelling, mem_word] at spelled
    have start : Follows [.punctuator .openBracket] (first ++ (last ++ rest)) := by
      simp [spelled]
    exact accept_none faces start (by simp)
  obtain ⟨n, c₁, read, same_n, faces₁⟩ := run faces (follow.any last)
  have same_bare : same false (NullableType.named n) t.bare = true := by
    rw [bare]
    simpa [same, NullableType.same] using same_n
  obtain ⟨t', c₂, rest_ok, same_t, faces₂⟩ :=
    (nonNullMark_restores c.current.start same_bare marked).2 faces₁ follow
  refine ⟨t', c₂, ?_, same_t, faces₂⟩
  simp only [typeRefWith, lifted_self]
  rw [here_bind, bind_eq other, if_neg (by simp), bind_eq (map_ok.mpr ⟨n, read, rfl⟩)]
  exact rest_ok

/-- A list of elements and the mark after it, if there is one. -/
theorem listRef_restores {p : Parser TypeRef} {t e : TypeRef} {o : Option Origin}
    (bare : t.bare = .list o e) (element : Restores p [.punctuator .bang] e.spelling e) :
    Restores (typeRefWith p) [.punctuator .bang] t.spelling t := by
  intro ks spelled
  rw [TypeRef.spelling_eq, bare, NullableType.spelling, mul_assoc, mul_assoc, mem_word_mul]
    at spelled
  obtain ⟨_, spelled, rfl⟩ := spelled
  rw [Language.mem_mul] at spelled
  obtain ⟨first, spelled, _, closing, rfl⟩ := spelled
  rw [mem_word_mul] at closing
  obtain ⟨last, marked, rfl⟩ := closing
  obtain ⟨words, run⟩ := element spelled
  refine ⟨by simp [words, words_markSpelling marked], ?_⟩
  intro c rest faces follow
  simp only [List.cons_append, List.append_assoc] at faces
  obtain ⟨c₁, opened, faces₁⟩ := accept_faces faces (by simp)
  obtain ⟨e', c₂, read, same_e, faces₂⟩ := run faces₁ (by simp)
  obtain ⟨c₃, closed, faces₃⟩ := expect_faces faces₂ (follow.any last).ne_nil
  have same_bare : same false (NullableType.list (c.spanTo c₃) e') t.bare = true := by
    rw [bare]
    simpa [same, NullableType.same] using same_e
  obtain ⟨t', c₄, rest_ok, same_t, faces₄⟩ :=
    (nonNullMark_restores c.current.start same_bare marked).2 faces₃ follow
  refine ⟨t', c₄, ?_, same_t, faces₄⟩
  simp only [typeRefWith, lifted_self]
  rw [here_bind, bind_eq opened, if_pos rfl, bind_eq read, bind_eq closed, spanFrom_bind]
  exact rest_ok

/-- Types, given that the elements of lists are given back. -/
theorem typeRefWith_restores {p : Parser TypeRef} {t : TypeRef}
    (elements : ∀ e : TypeRef, 0 < levels → e.tree.Legal const (levels - 1) →
      Restores p [.punctuator .bang] e.spelling e)
    (legal : t.tree.Legal const levels) :
    Restores (typeRefWith p) [.punctuator .bang] t.spelling t := by
  have legal_bare : t.bare.tree.Legal const levels := by
    cases t with
    | nullable t => exact legal
    | nonNull o t => exact (legal.flat rfl).2 _ List.mem_cons_self
  cases bare : t.bare with
  | named t' =>
    rw [bare] at legal_bare
    exact namedRef_restores bare legal_bare
  | list o e =>
    rw [bare] at legal_bare
    obtain ⟨-, pos, parts⟩ := legal_bare.nested rfl
    exact listRef_restores bare (elements e pos (parts _ List.mem_cons_self))

/-- Types within a limit of levels. -/
theorem typeRef_restores {t : TypeRef} (legal : t.tree.Legal const levels) :
    Restores (typeRef levels) [.punctuator .bang] t.spelling t := by
  induction levels generalizing t with
  | zero => exact typeRefWith_restores (fun e pos _ => absurd pos (Nat.lt_irrefl 0)) legal
  | succ levels ih => exact typeRefWith_restores (fun e _ legal => ih legal) legal

end GraphQL.Parser
