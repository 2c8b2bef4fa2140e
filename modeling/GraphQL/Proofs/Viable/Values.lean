import GraphQL.Proofs.Sound.Value
import GraphQL.Proofs.Viable.Legal

/-! The parsers of names, values and types are viable. -/
namespace GraphQL.Parser

open Spelling Computability

variable {ok : Condition} {const : Bool} {levels : Nat} {c : Cursor}

/-- A name that is allowed wherever names are. -/
def anyName : Name := ⟨none, "FIELD"⟩

theorem isName_anyName : IsName anyName.value := by decide

theorem legal_name {n : Name} (known : IsName n.value) : AllLegal const levels [n.tree] :=
  (Node.name n).legal_flat (show _ = Tree.node _ [] from rfl) rfl known .nil

/-- Names with legal trees. -/
abbrev Names (const : Bool) (levels : Nat) : Spelling :=
  Legally const levels Name.spelling fun n => [n.tree]

/-- Names that something holds of. -/
def NamesThat (P : Name → Prop) (const : Bool) (levels : Nat) : Spelling := fun ks =>
  ∃ n, P n ∧ ks ∈ n.spelling ∧ AllLegal const levels [n.tree]

theorem completes_names {P : Name → Prop} (allowed : P anyName) :
    Completes (NamesThat P const levels) [] := by
  refine ⟨[.name "FIELD"], ⟨anyName, allowed, by simp [Name.spelling, anyName], ?_⟩, ?_⟩
  · exact legal_name isName_anyName
  · intro k hk
    rw [List.mem_singleton.mp hk]
    exact TokenKind.lexes_name isName_anyName

/-- A name is consumed, or there is none. -/
theorem name_run (whole : c.Whole) :
    (∃ n c', name c = .ok (n, c') ∧ Consumes c [c.current] c' ∧ c.current.kind = .name n.value) ∨
      name c = unexpected (some .name) c ∧ c.current.kind.isName = false := by
  cases kind : c.current.kind with
  | name text =>
    obtain ⟨c', ran, steps⟩ := whole.consume (by simp [kind])
    refine .inl ⟨⟨some (c.current.origin c'.source), text⟩, c', ?_, steps, rfl⟩
    rw [name, peek_bind]
    simp only [kind]
    rw [bind_eq ran, originOf_bind]
    rfl
  | _ =>
    refine .inr ⟨?_, rfl⟩
    rw [name, peek_bind]
    simp only [kind]

/-- Names that are looked at once they are read. -/
theorem names_viable (const : Bool) (levels : Nat) {P : Name → Prop} {f : Name → Parser Name}
    (allowed : P anyName)
    (checks : ∀ n c, f n c = .ok (n, c) ∧ P n ∨ ∃ e, f n c = .error e ∧ ¬ e.violation.IsUnexpected) :
    Viable ok (name >>= f) (NamesThat P const levels) where
  run c whole := by
    rcases name_run whole with ⟨n, c', ran, steps, kind⟩ | ⟨ran, -⟩
    · rw [bind_eq ran]
      have known : IsName n.value :=
        whole.ready.names c.current (by simp [Cursor.pending]) _ kind
      rcases checks n c' with ⟨passed, holds⟩ | ⟨e, failed, other⟩
      · rw [passed]
        have spelled : kinds [c.current] ∈ n.spelling := by simp [kind, Name.spelling]
        have closed : LeavesOpen (kinds [c.current]) [] := by simpa [kind] using .flat rfl
        exact ⟨[c.current], steps, ⟨n, holds, spelled, legal_name known⟩, closed⟩
      · rw [failed]
        exact fun unexpected => absurd unexpected other
    · rw [bind_result, ran]
      exact fun _ => .here fun _ _ _ => completes_names allowed
  blank _ _ _ := completes_names allowed

theorem name_viable (const : Bool) (levels : Nat) :
    Viable ok name (Names const levels) := by
  have read : Viable ok (name >>= Pure.pure) _ :=
    names_viable const levels (P := fun _ => True) trivial
      fun n c => .inl ⟨rfl, trivial⟩
  rw [bind_pure] at read
  refine read.sub ?_
  rintro ks ⟨n, -, spelled, legal⟩
  exact ⟨n, spelled, legal⟩

theorem unreservedName_viable (role : ReservingRole) (const : Bool) (levels : Nat) :
    Viable ok (unreservedName role)
      (NamesThat (fun n => n.value ∉ reservedWords role) const levels) := by
  refine .look .peek fun t => names_viable const levels (by cases role <;> decide) fun n c => ?_
  by_cases reserved : n.value ∈ reservedWords role
  · rw [if_pos reserved]
    exact .inr ⟨_, rfl, id⟩
  · rw [if_neg reserved]
    exact .inl ⟨rfl, reserved⟩

/-- Names of types with legal trees. -/
abbrev NamedTypes (const : Bool) (levels : Nat) : Spelling :=
  Legally const levels NamedType.spelling fun t => [t.tree]

theorem namedType_viable (const : Bool) (levels : Nat) [ok.TailClosed] :
    Viable ok namedType (NamedTypes const levels) := by
  refine Viable.sub ((name_viable const levels).bind fun _ => .pure _) ?_
  rintro ks mem
  rw [mul_one] at mem
  obtain ⟨n, spelled, legal⟩ := mem
  exact ⟨⟨none, n⟩, spelled,
    (Node.type (.nullable (.named ⟨none, n⟩))).legal_flat rfl rfl trivial legal⟩

theorem variableName_viable (const : Bool) (levels : Nat) [ok.TailClosed] :
    Viable ok variableName
      (mark .dollar * Names const levels) :=
  (Viable.expect rfl).bind fun _ => name_viable const levels

theorem legal_string {s : StringValue} : AllLegal const (levels + 1) [s.tree] :=
  (Node.value (.string s)).legal_nested (show _ = Tree.node _ [] from rfl) rfl trivial
    (by simp [Node.kind, Value.kind]) .nil

/-- A string is consumed, or has no value, or there is none. -/
theorem optionalString_run (whole : c.Whole) :
    (optionalString c = .ok (none, c) ∧ c.current.kind.isString = false) ∨
    (∃ s c', optionalString c = .ok (some s, c') ∧ Consumes c [c.current] c' ∧
      [c.current.kind] ∈ s.spelling ∧ LeavesOpen [c.current.kind] []) ∨
    ∃ e, optionalString c = .error e ∧ ¬ e.violation.IsUnexpected := by
  rw [optionalString, peek_bind]
  cases cooked : c.current.kind.stringValue? with
  | none =>
    refine .inl ⟨rfl, ?_⟩
    cases kind : c.current.kind <;> simp_all [TokenKind.stringValue?, TokenKind.isString]
  | some outcome =>
    have more : c.current.kind ≠ .endOfInput := by
      intro kind
      simp [kind, TokenKind.stringValue?] at cooked
    have flat : c.current.kind.isFlat = true := by
      cases kind : c.current.kind <;> simp_all [TokenKind.stringValue?, TokenKind.isFlat]
    obtain ⟨c', ran, steps⟩ := whole.consume more
    simp only
    rw [bind_eq ran, originOf_bind]
    cases outcome with
    | error fault => exact .inr (.inr ⟨_, rfl, id⟩)
    | ok value => exact .inr (.inl ⟨_, c', rfl, steps, ⟨_, ⟨cooked, rfl⟩, rfl⟩, .flat flat⟩)

/-- A description is a value, so there has to be a level for it. -/
theorem optionalString_viable (const : Bool) (levels : Nat) :
    Viable ok optionalString
      (Legally const (levels + 1) descriptionSpelling (·.toList.map (·.tree))) where
  run c whole := by
    rcases optionalString_run whole with
      ⟨ran, -⟩ | ⟨s, c', ran, steps, spelled, closed⟩ | ⟨e, failed, other⟩
    · rw [ran]
      exact (Passes.refl c).mono fun _ mem => ⟨none, mem, .nil⟩
    · rw [ran]
      exact ⟨[c.current], steps, ⟨some s, spelled, legal_string⟩, closed⟩
    · rw [failed]
      exact fun unexpected => absurd unexpected other
  blank _ _ _ := ⟨[], ⟨none, rfl, .nil⟩, by simp⟩

/-! ### Values -/

/-- Values with legal trees. -/
abbrev Values (const : Bool) (levels : Nat) : Spelling :=
  Legally const levels Value.spelling fun v => [v.tree]

/-- What a value in front of which a condition holds can count on: less is asked of what stands in
lists and objects, and where nothing may vary there is no dollar sign. -/
structure AllowsValue (ok : Condition) (const : Bool) (levels : Nat) : Prop where
  list : Between ok (Clear const levels) .openBracket .closeBracket
  object : Between ok (Clear const levels) .openBrace .closeBrace
  dollar : const = true → ¬ ok [.punctuator .dollar] []

theorem allowsValue_clear : AllowsValue (Clear const (levels + 1)) const levels where
  list := .brackets
  object := .braces
  dollar constant holds := holds.2 constant rfl

/-- A value of one token. -/
theorem legal_literal {v : Value} (leaf : v.tree = .leaf (.value v))
    (lawful : (Node.value v).IsLawful) (constant : v.kind ≠ .variable) :
    AllLegal const (levels + 1) [v.tree] :=
  (Node.value v).legal_nested leaf rfl lawful (by simp [Node.kind, constant]) .nil

theorem legal_wordValue {text : String} (known : IsName text) (o : Option Origin) :
    [TokenKind.name text] ∈ (wordValue o text).spelling ∧
      AllLegal const (levels + 1) [(wordValue o text).tree] := by
  have leaf : ∀ v : Value, v = wordValue o text →
      v.tree = .leaf (.value v) ∧ v.kind ≠ .variable := by
    rintro v rfl
    unfold wordValue
    split_ifs
    all_goals exact ⟨by simp [Value.tree], by simp [Value.kind]⟩
  have lawful : (Node.value (wordValue o text)).IsLawful := by
    unfold wordValue
    split_ifs with yes no null
    · trivial
    · trivial
    · trivial
    · exact ⟨known, by simp [literalWords, yes, no, null]⟩
  refine ⟨?_, legal_literal (leaf _ rfl).1 lawful (leaf _ rfl).2⟩
  unfold wordValue
  split_ifs with yes no null
  all_goals simp_all [Value.spelling]

theorem completes_values : Completes (Values const (levels + 1)) [] := by
  obtain ⟨spelled, legal⟩ : _ ∧ AllLegal const (levels + 1) _ :=
    legal_wordValue isName_anyName none
  refine ⟨[.name anyName.value], ⟨_, spelled, legal⟩, ?_⟩
  intro k hk
  rw [List.mem_singleton.mp hk]
  exact TokenKind.lexes_name isName_anyName

theorem objectField_viable [ok.TailClosed] {p : Parser Value}
    (values : Viable ok p (Values const levels)) :
    Viable ok (objectField p) (Legally const levels ObjectField.spelling fun f => [f.tree]) := by
  refine Viable.sub (.look .here fun _ => (name_viable const levels).bind fun _ =>
    (Viable.expect rfl).bind fun _ => values.ends fun _ => .spanned) ?_
  rintro ks ⟨_, ⟨n, named, legal_n⟩, _, ⟨_, colon, _, ⟨v, valued, legal_v⟩, rfl⟩, rfl⟩
  refine ⟨⟨none, n, v⟩, ?_, (Node.objectField ⟨none, n, v⟩).legal_flat rfl rfl trivial
    (legal_n.append legal_v)⟩
  rw [ObjectField.spelling_eq, mul_assoc]
  exact Language.append_mem_mul named (Language.append_mem_mul colon valued)

/-- A variable, where one is allowed. -/
theorem dollar_viableAt {position : Option ConstPosition} {f : Name → Parser Value}
    (allows : AllowsValue ok position.isSome levels) (whole : c.Whole)
    (kind : c.current.kind = .punctuator .dollar)
    (reads : ∀ n c', position = none ∧ (∃ o, f n c' = .ok (.variable o n, c')) ∨
      ∃ e, f n c' = .error e ∧ ¬ e.violation.IsUnexpected) :
    ViableAt ok (Values position.isSome (levels + 1)) c ((variableName >>= f) c) := by
  obtain ⟨c₁, ran, steps⟩ := whole.consume (by simp [kind])
  have closed : LeavesOpen (kinds [c.current]) [] := by simpa [kind] using .flat rfl
  have begun : variableName c = name c₁ := by
    rw [variableName, expect, bind_assoc, atMark_bind, if_pos (decide_eq_true kind), bind_eq ran]
  rw [bind_result, begun]
  rcases name_run (steps.whole whole) with ⟨n, c₂, named, steps', kind'⟩ | ⟨named, -⟩
  · rw [named]
    simp only
    rcases reads n c₂ with ⟨rfl, o, read⟩ | ⟨e, failed, other⟩
    · rw [read]
      have known : IsName n.value :=
        (steps.whole whole).ready.names c₁.current (by simp [Cursor.pending]) _ kind'
      refine ⟨[c.current] ++ [c₁.current], steps.trans steps', ⟨.variable o n, ?_, ?_⟩, ?_⟩
      · simp [kind, kind', Value.spelling, Name.spelling, mem_word_mul]
      · exact (Node.value (.variable o n)).legal_nested (by simp [Node.tree, Value.tree]) rfl trivial
          (by simp) (legal_name known)
      · simpa [kind, kind'] using closed.behind (.flat (k := .name n.value) rfl)
    · rw [failed]
      exact fun unexpected => absurd unexpected other
  · rw [named]
    refine fun _ => ⟨[c.current], c₁, [], steps, ⟨rfl, _, rfl⟩, closed, fun holds => ?_⟩
    cases position with
    | some position =>
      rw [kinds, List.map_singleton, kind] at holds
      exact absurd holds (allows.dollar rfl)
    | none =>
      refine ⟨[.name anyName.value], ⟨.variable none anyName, ?_, ?_⟩, ?_⟩
      · simp [kind, Value.spelling, Name.spelling, mem_word_mul]
      · exact (Node.value (.variable none anyName)).legal_nested (by simp [Node.tree, Value.tree]) rfl
          trivial (by simp) (legal_name isName_anyName)
      · simpa using TokenKind.lexes_name isName_anyName

theorem nil_notMem_values : [] ∉ Values const levels :=
  nil_notMem_legally .value (fun _ => rfl) fun _ => rfl

theorem leafValue_viable {position : Option ConstPosition}
    (allows : AllowsValue ok position.isSome levels) :
    Viable ok (leafValue position) (Values position.isSome (levels + 1)) where
  run c whole := by
    rw [leafValue, peek_bind]
    cases kind : c.current.kind with
    | punctuator m =>
      cases m with
      | dollar =>
        refine dollar_viableAt allows whole kind fun n c' => ?_
        cases position with
        | none => exact .inl ⟨rfl, _, rfl⟩
        | some position => exact .inr ⟨_, rfl, id⟩
      | _ => exact .unexpected fun _ _ _ => completes_values
    | int literal =>
      refine .token whole (by simp [kind]) (by simp [kind, TokenKind.isFlat]) fun c' => ?_
      rw [spanFrom_bind]
      cases denoted : (Text.Decimal.ofLiteral literal.toList).toInt32? with
      | none => exact .inr ⟨_, rfl, id⟩
      | some n =>
        refine .inl ⟨_, rfl, .int none n, ⟨_, ⟨literal, rfl, denoted⟩, by rw [kind]⟩,
          legal_literal ?_ trivial ?_⟩
        · simp [Value.tree]
        · simp [Value.kind]
    | float literal =>
      refine .token whole (by simp [kind]) (by simp [kind, TokenKind.isFlat]) fun c' => ?_
      rw [spanFrom_bind]
      cases denoted : (Text.Decimal.ofLiteral literal.toList).toFloat? with
      | none => exact .inr ⟨_, rfl, id⟩
      | some x =>
        refine .inl ⟨_, rfl, .float none x, ⟨_, ⟨literal, rfl, denoted⟩, by rw [kind]⟩,
          legal_literal ?_ trivial ?_⟩
        · simp [Value.tree]
        · simp [Value.kind]
    | string literal | blockString literal =>
      rcases optionalString_run whole with
        ⟨-, other⟩ | ⟨s, c', ran, steps, spelled, closed⟩ | ⟨e, failed, other⟩
      · simp [kind, TokenKind.isString] at other
      · simp only
        rw [bind_eq ran]
        exact ⟨[c.current], steps, ⟨.string s, spelled, legal_string⟩, closed⟩
      · simp only
        rw [bind_result, failed]
        exact fun unexpected => absurd unexpected other
    | name text =>
      have known : IsName text := whole.ready.names c.current (by simp [Cursor.pending]) _ kind
      refine .token whole (by simp [kind]) (by simp [kind, TokenKind.isFlat]) fun c' => ?_
      refine .inl ⟨_, rfl, wordValue none text, ?_⟩
      rw [kind]
      exact legal_wordValue known none
    | _ => exact .unexpected fun _ _ _ => completes_values
  blank _ _ _ := completes_values

theorem valueWith_viable {position : Option ConstPosition} {p : Parser Value}
    (allows : AllowsValue ok position.isSome levels)
    (values : Viable (Clear position.isSome levels) p (Values position.isSome levels)) :
    Viable ok (valueWith position p) (Values position.isSome (levels + 1)) where
  run c whole := by
    by_cases bracket : c.current.kind = .punctuator .openBracket
    · simp only [valueWith, lifted_self, peek_bind, bracket]
      refine (Viable.sub ((any_viable values allows.list nil_notMem_values).ends
        fun _ => .spanned) ?_).run whole
      rintro ks ⟨_, ⟨_, opened, items, h, rfl⟩, _, closed, rfl⟩
      obtain ⟨vs, spelled, legal⟩ := legally_row h
      refine ⟨.list none vs, ?_, (Node.value (.list none vs)).legal_nested ?_ rfl trivial ?_ legal⟩
      · rw [Value.spelling, Value.spellings_eq_row]
        exact Language.append_mem_mul (Language.append_mem_mul opened spelled) closed
      · simp [Node.tree, Value.tree, Value.trees_eq_map]
      · simp [Node.kind, Value.kind]
    by_cases brace : c.current.kind = .punctuator .openBrace
    · simp only [valueWith, lifted_self, peek_bind, brace]
      refine (Viable.sub ((any_viable (objectField_viable values) allows.object ?_).ends
        fun _ => .spanned) ?_).run whole
      · exact nil_notMem_legally .objectField (fun _ => rfl) fun _ => rfl
      rintro ks ⟨_, ⟨_, opened, items, h, rfl⟩, _, closed, rfl⟩
      obtain ⟨fs, spelled, legal⟩ := legally_row h
      refine ⟨.object none fs, ?_,
        (Node.value (.object none fs)).legal_nested ?_ rfl trivial ?_ legal⟩
      · rw [Value.spelling, ObjectField.spellings_eq_row]
        exact Language.append_mem_mul (Language.append_mem_mul opened spelled) closed
      · simp [Node.tree, Value.tree, ObjectField.trees_eq_map]
      · simp [Node.kind, Value.kind]
    · rw [valueWith_leaf ⟨bracket, brace⟩]
      exact (leafValue_viable allows).run whole
  blank _ _ _ := completes_values

/-- Values within a limit of levels. -/
theorem value_viable (position : Option ConstPosition) (levels : Nat) :
    Viable (Clear position.isSome levels) (value position levels)
      (Values position.isSome levels) := by
  induction levels with
  | zero =>
    refine ⟨fun c _ => ?_, fun ks opened holds => absurd holds.1 (by simp)⟩
    exact fun unexpected => absurd unexpected id
  | succ levels ih => exact valueWith_viable allowsValue_clear ih

/-! ### Types -/

/-- Types with legal trees. -/
abbrev TypeRefs (const : Bool) (levels : Nat) : Spelling :=
  Legally const levels TypeRef.spelling fun t => [t.tree]

/-- Types without a mark at the end. -/
abbrev NullableTypes (const : Bool) (levels : Nat) : Spelling :=
  Legally const levels NullableType.spelling fun t => [t.tree]

/-- Whether a mark follows a type or not, there is a type. -/
theorem typeRefs_of_mark {ks : List TokenKind}
    (h : ks ∈ NullableTypes const levels * (mark .bang + 1)) : ks ∈ TypeRefs const levels := by
  obtain ⟨_, ⟨bare, spelled, legal⟩, last, bang | none, rfl⟩ := h
  · refine ⟨.nonNull none bare, ?_,
      (Node.type (.nonNull none bare)).legal_flat (by simp [Node.tree, TypeRef.tree]) rfl trivial legal⟩
    rw [TypeRef.spelling]
    exact Language.append_mem_mul spelled bang
  · cases (none : last = [])
    exact ⟨.nullable bare, by simpa [TypeRef.spelling] using spelled,
      by simpa [TypeRef.tree] using legal⟩

/-- The non-null mark after a type, if there is one. -/
theorem nonNullMark_viable {start : Position} {bare : NullableType} :
    Viable ok (do
      if ← accept .bang then return .nonNull (some (← spanFrom start)) bare
      else return .nullable bare : Parser TypeRef) (mark .bang + 1) := by
  have read : Viable ok (do
      if ← accept .bang then return .nonNull (some (← spanFrom start)) bare
      else return .nullable bare : Parser TypeRef) (mark .bang * 1 + 1) :=
    .accept rfl (.spanned : Viable (fun _ _ => True) _ 1) (.pure _) fun _ _ _ => trivial
  rwa [mul_one] at read

theorem completes_nullableTypes : Completes (NullableTypes const levels) [] := by
  refine ⟨[.name anyName.value], ⟨.named ⟨none, anyName⟩, ?_, ?_⟩, ?_⟩
  · simp [NullableType.spelling, NamedType.spelling, Name.spelling]
  · change AllLegal const levels [NamedType.tree ⟨none, anyName⟩]
    exact (Node.type (.nullable (.named ⟨none, anyName⟩))).legal_flat rfl rfl trivial
      (legal_name isName_anyName)
  · simpa using TokenKind.lexes_name isName_anyName

/-- Types, given the condition and the spelling of the elements of lists. -/
theorem typeRefWith_viable [ok.TailClosed] {inner : Condition} {E : Spelling} {p : Parser TypeRef}
    (between : Between ok inner .openBracket .closeBracket) (elements : Viable inner p E)
    (lists : ∀ ks ∈ mark .openBracket * E * mark .closeBracket, ks ∈ NullableTypes const levels) :
    Viable ok (typeRefWith p) (TypeRefs const levels) := by
  refine Viable.sub (A := NullableTypes const levels * (mark .bang + 1)) ?_
    fun _ => typeRefs_of_mark
  refine .look .here fun start =>
    ⟨fun c whole => ?_, fun _ _ _ => .mul completes_nullableTypes (.inr .one)⟩
  simp only [lifted_self]
  rcases whole.accept .openBracket with ⟨c₁, ran, steps, kind⟩ | ⟨ran, -⟩
  · rw [bind_eq ran, if_pos rfl]
    have shut := shut_loops .closeBracket (elements.run (steps.whole whole)) (steps.whole whole)
    have bare := (shut.between between kind steps).mono lists fun _ _ => id
    have read := bare.seq (f := fun e => do
        let o ← spanFrom start
        if ← accept .bang then return TypeRef.nonNull (some (← spanFrom start)) (.list (some o) e)
        else return .nullable (.list (some o) e)) whole
      (fun a c' _ whole' => (Viable.look (.spanFrom start) fun o => nonNullMark_viable).run whole')
      (fun _ _ _ _ _ holds => Condition.TailClosed.tail holds) fun _ _ _ => .inr .one
    simpa only [bind_assoc, pure_bind] using read
  · rw [bind_eq ran, if_neg (by simp), bind_map_left]
    have named : Viable ok namedType (NullableTypes const levels) := by
      refine (namedType_viable const levels).sub ?_
      rintro ks ⟨t, spelled, legal⟩
      exact ⟨.named t, by simpa [NullableType.spelling] using spelled,
        by simpa [NullableType.tree] using legal⟩
    exact (named.bind fun _ => nonNullMark_viable).run whole

/-- A parser that always fails, with an error of another sort than those that count here. -/
theorem tooDeep_viable {α : Type} : Viable (fun _ _ => False) (tooDeep : Parser α) 0 where
  run _ _ := fun unexpected => absurd unexpected id
  blank _ _ := False.elim

/-- Types within a limit of levels. -/
theorem typeRef_viable (const : Bool) (levels : Nat) :
    Viable (Clear const levels) (typeRef levels) (TypeRefs const levels) := by
  induction levels with
  | zero =>
    refine typeRefWith_viable ⟨by simp [LeavesOpen.Closes], fun ks opened _ holds => ?_⟩
      tooDeep_viable ?_
    · exact absurd holds.1 (by simp)
    · rintro ks ⟨_, ⟨_, -, _, ⟨⟩, -⟩, -⟩
  | succ levels ih =>
    refine typeRefWith_viable .brackets ih ?_
    rintro ks ⟨_, ⟨_, opened, _, ⟨e, spelled, legal⟩, rfl⟩, _, closed, rfl⟩
    refine ⟨.list none e, ?_, ?_⟩
    · rw [NullableType.spelling]
      exact Language.append_mem_mul (Language.append_mem_mul opened spelled) closed
    · exact (Node.type (.nullable (.list none e))).legal_nested
        (by simp [Node.tree, TypeRef.tree, NullableType.tree]) rfl trivial (by simp [Node.kind]) legal

end GraphQL.Parser
