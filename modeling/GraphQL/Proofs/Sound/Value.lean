import GraphQL.Parser.Value
import GraphQL.Proofs.Sound.Repetition

/-! What the parsers of names, values and types read. -/
namespace GraphQL.Parser

open Spelling

variable {const : Bool} {levels : Nat} {c c' : Cursor}

/-- A token with something that is read from it alone. -/
theorem token_reads (n : Node) {t : Token} (ready : c.Ready) (consumed : consume c = .ok (t, c'))
    (more : c.current.kind ≠ .endOfInput) (spelled : [c.current.kind] ∈ n.spelling)
    (leaf : n.tree = .leaf n)
    (origin : some ⟨c'.source, c.current.start, c'.lastEnd⟩ = n.origin?) (lawful : n.IsLawful)
    (sort : n.kind ≠ .document ∧ (const = true → n.kind ≠ .value .variable)) :
    Read const (levels + n.nests.toNat) c c' n.spelling [.leaf n] := by
  obtain ⟨rfl, step⟩ := consume_reads ready more consumed
  have token : Read const levels c c' n.spelling [] := ⟨_, step, spelled, trivial, by simp⟩
  exact token.node n leaf origin lawful sort

/-- Names are single tokens, and their origins are those of the tokens. -/
theorem name_ok {n : Name} (ready : c.Ready) (h : name c = .ok (n, c')) :
    c.current.kind = .name n.value ∧ consume c = .ok (c.current, c') ∧
      some ⟨c'.source, c.current.start, c'.lastEnd⟩ = n.origin := by
  simp only [name, bind_ok, peek_ok] at h
  obtain ⟨_, _, ⟨rfl, rfl⟩, h⟩ := h
  cases kind : c.current.kind with
  | name text =>
    simp only [kind, bind_ok, originOf_ok, pure_ok] at h
    obtain ⟨t, c₁, consumed, _, _, ⟨rfl, rfl⟩, rfl, rfl⟩ := h
    obtain ⟨rfl, step⟩ := consume_reads ready (by simp [kind]) consumed
    refine ⟨rfl, consumed, ?_⟩
    simp [Token.origin, step.lastEnd]
  | _ => simp [kind] at h

theorem name_reads : Reads const levels name (·.spelling) fun n => [n.tree] := by
  intro c c' n ready h
  obtain ⟨kind, consumed, origin⟩ := name_ok ready h
  have lawful : (Node.name n).IsLawful :=
    ready.names c.current (by simp [Cursor.pending]) _ kind
  have spelled : [c.current.kind] ∈ (Node.name n).spelling := by
    simp [kind, Node.spelling, Name.spelling]
  exact token_reads (.name n) ready consumed (by simp [kind]) spelled rfl origin lawful
    (by simp [Node.kind])

theorem unreservedName_ok {role : ReservingRole} {n : Name}
    (h : unreservedName role c = .ok (n, c')) :
    name c = .ok (n, c') ∧ n.value ∉ reservedWords role := by
  simp only [unreservedName, bind_ok, peek_ok] at h
  obtain ⟨_, _, ⟨rfl, rfl⟩, n', c₁, named, h⟩ := h
  split at h
  · simp at h
  · next free =>
    simp only [pure_ok] at h
    obtain ⟨rfl, rfl⟩ := h
    exact ⟨named, free⟩

theorem variableName_reads :
    Reads const levels variableName (fun n => mark .dollar * n.spelling) fun n => [n.tree] := by
  intro c c' n ready h
  simp only [variableName, bind_ok] at h
  obtain ⟨t, c₁, dollar, named⟩ := h
  have r : Read const levels c c₁ (mark .dollar) [] := expect_reads ready dollar
  exact r.trans (name_reads (r.ready ready) named)

/-- Strings are single tokens, and their origins are those of the tokens. -/
theorem optionalString_ok {o : Option StringValue} (ready : c.Ready)
    (h : optionalString c = .ok (o, c')) :
    (o = none ∧ c.current.kind.isString = false ∧ c = c') ∨
      ∃ s : StringValue, o = some s ∧ c.current.kind.isString = true ∧
        [c.current.kind] ∈ s.spelling ∧ consume c = .ok (c.current, c') ∧
        some ⟨c'.source, c.current.start, c'.lastEnd⟩ = s.origin := by
  simp only [optionalString, bind_ok, peek_ok] at h
  obtain ⟨_, _, ⟨rfl, rfl⟩, h⟩ := h
  have strings : c.current.kind.stringValue?.isSome = c.current.kind.isString := by
    cases c.current.kind <;> rfl
  cases cooked : c.current.kind.stringValue? with
  | none =>
    simp only [cooked, pure_ok] at h
    obtain ⟨rfl, rfl⟩ := h
    exact .inl ⟨rfl, by simp [← strings, cooked], rfl⟩
  | some outcome =>
    simp only [cooked, bind_ok, originOf_ok] at h
    obtain ⟨t, c₁, consumed, _, _, ⟨rfl, rfl⟩, h⟩ := h
    cases outcome with
    | error fault => simp at h
    | ok value =>
      simp only [pure_ok] at h
      obtain ⟨rfl, rfl⟩ := h
      have string : c.current.kind.isString = true := by simp [← strings, cooked]
      have more : c.current.kind ≠ .endOfInput := by
        intro kind
        simp [kind, TokenKind.isString] at string
      obtain ⟨rfl, step⟩ := consume_reads ready more consumed
      refine .inr ⟨_, rfl, string, ⟨_, ⟨cooked, rfl⟩, rfl⟩, consumed, ?_⟩
      simp [Token.origin, step.lastEnd]

/-- A description is a value, so it counts as a level. -/
theorem optionalString_reads :
    Reads const (levels + 1) optionalString descriptionSpelling (·.toList.map (·.tree)) := by
  intro c c' o ready h
  rcases optionalString_ok ready h with ⟨rfl, -, rfl⟩ | ⟨s, rfl, string, spelled, consumed, origin⟩
  · exact .refl c
  · have more : c.current.kind ≠ .endOfInput := by
      intro kind
      simp [kind, TokenKind.isString] at string
    exact token_reads (.value (.string s)) ready consumed more spelled rfl origin trivial
      (by simp [Node.kind, Value.kind])

/-- A value that takes up one token. -/
theorem literal_reads (v : Value) {t : Token} (ready : c.Ready) (consumed : consume c = .ok (t, c'))
    (more : c.current.kind ≠ .endOfInput) (spelled : [c.current.kind] ∈ v.spelling)
    (origin : some ⟨c'.source, c.current.start, c'.lastEnd⟩ = v.origin?)
    (lawful : (Node.value v).IsLawful) (constant : v.kind ≠ .variable)
    (leaf : v.tree = .leaf (.value v)) : Read const (levels + 1) c c' v.spelling [v.tree] := by
  rw [leaf]
  exact token_reads (.value v) ready consumed more spelled leaf origin lawful
    (by simp [Node.kind, constant])

theorem wordValue_reads {text : String} {t : Token} {o : Origin} (ready : c.Ready)
    (kind : c.current.kind = .name text) (consumed : consume c = .ok (t, c'))
    (origin : some ⟨c'.source, c.current.start, c'.lastEnd⟩ = some o) :
    Read const (levels + 1) c c' (wordValue o text).spelling [(wordValue o text).tree] := by
  have known : IsName text := ready.names c.current (by simp [Cursor.pending]) _ kind
  have more : c.current.kind ≠ .endOfInput := by simp [kind]
  unfold wordValue
  split_ifs with yes no null
  · exact literal_reads (.boolean o true) ready consumed more (by simp [kind, yes, Value.spelling])
      origin trivial (by simp [Value.kind]) (by simp [Value.tree])
  · exact literal_reads (.boolean o false) ready consumed more (by simp [kind, no, Value.spelling])
      origin trivial (by simp [Value.kind]) (by simp [Value.tree])
  · exact literal_reads (.null o) ready consumed more (by simp [kind, null, Value.spelling])
      origin trivial (by simp [Value.kind]) (by simp [Value.tree])
  · have free : text ∉ literalWords := by simp [literalWords, yes, no, null]
    exact literal_reads (.enum o text) ready consumed more (by simp [kind, Value.spelling])
      origin ⟨known, free⟩ (by simp [Value.kind]) (by simp [Value.tree])

theorem objectField_reads {p : Parser Value}
    (reads : Reads const levels p (·.spelling) fun v => [v.tree]) :
    Reads const levels (objectField p) (·.spelling) fun f => [f.tree] := by
  intro c c' f ready h
  simp only [objectField, lifted_self, bind_ok, here_ok, spanFrom_ok, pure_ok] at h
  obtain ⟨_, _, ⟨rfl, rfl⟩, n, c₁, named, t, c₂, colon, v, c₃, valued, o, _, ⟨origin, rfl⟩, rfl,
    rfl⟩ := h
  have r₁ : Read const levels c c₁ n.spelling [n.tree] := name_reads ready named
  have r₂ : Read const levels c c₂ _ [n.tree] := r₁.skip (expect_reads (r₁.ready ready) colon)
  have r₃ := r₂.trans (reads (r₂.ready ready) valued)
  exact r₃.node (.objectField ⟨some o, n, v⟩) rfl (congrArg some origin) trivial
    (by simp [Node.kind])

/-- Only where a position is not const may a variable stand. -/
theorem leafValue_reads (position : Option ConstPosition) :
    Reads position.isSome (levels + 1) (leafValue position) (·.spelling) fun v => [v.tree] := by
  intro c c' v ready h
  simp only [leafValue, bind_ok, peek_ok] at h
  obtain ⟨_, _, ⟨rfl, rfl⟩, h⟩ := h
  cases kind : c.current.kind with
  | punctuator m =>
    cases m with
    | dollar =>
      simp only [kind, bind_ok, spanFrom_ok] at h
      obtain ⟨n, c₁, named, o, _, ⟨origin, rfl⟩, h⟩ := h
      cases position with
      | some position => simp at h
      | none =>
        simp only [pure_ok] at h
        obtain ⟨rfl, rfl⟩ := h
        have r : Read false levels c c₁ _ [n.tree] := variableName_reads ready named
        exact r.node (.value (.variable o n)) rfl (congrArg some origin) trivial
          (by simp [Node.kind])
    | _ => simp [kind] at h
  | int literal =>
    simp only [kind, bind_ok, spanFrom_ok] at h
    obtain ⟨t, c₁, consumed, o, _, ⟨origin, rfl⟩, h⟩ := h
    cases denoted : (Text.Decimal.ofLiteral literal.toList).toInt32? with
    | none => simp [denoted] at h
    | some n =>
      simp only [denoted, pure_ok] at h
      obtain ⟨rfl, rfl⟩ := h
      exact literal_reads (.int o n) ready consumed (by simp [kind])
        ⟨_, ⟨literal, rfl, denoted⟩, by simp [kind]⟩ (congrArg some origin) trivial
        (by simp [Value.kind]) (by simp [Value.tree])
  | float literal =>
    simp only [kind, bind_ok, spanFrom_ok] at h
    obtain ⟨t, c₁, consumed, o, _, ⟨origin, rfl⟩, h⟩ := h
    cases denoted : (Text.Decimal.ofLiteral literal.toList).toFloat? with
    | none => simp [denoted] at h
    | some x =>
      simp only [denoted, pure_ok] at h
      obtain ⟨rfl, rfl⟩ := h
      exact literal_reads (.float o x) ready consumed (by simp [kind])
        ⟨_, ⟨literal, rfl, denoted⟩, by simp [kind]⟩ (congrArg some origin) trivial
        (by simp [Value.kind]) (by simp [Value.tree])
  | string literal | blockString literal =>
    simp only [kind, bind_ok] at h
    obtain ⟨s, c₁, found, h⟩ := h
    cases s with
    | none => simp at h
    | some s =>
      simp only [pure_ok] at h
      obtain ⟨rfl, rfl⟩ := h
      exact optionalString_reads ready found
  | name text =>
    simp only [kind, bind_ok, spanFrom_ok, pure_ok] at h
    obtain ⟨t, c₁, consumed, o, _, ⟨origin, rfl⟩, rfl, rfl⟩ := h
    exact wordValue_reads ready kind consumed (congrArg some origin)
  | _ => simp [kind] at h

/-- Values, given what is read as the values in them. -/
theorem valueWith_reads {position : Option ConstPosition} {p : Parser Value}
    (reads : Reads position.isSome levels p (·.spelling) fun v => [v.tree]) :
    Reads position.isSome (levels + 1) (valueWith position p) (·.spelling) fun v => [v.tree] := by
  intro c c' v ready h
  by_cases bracket : c.current.kind = .punctuator .openBracket
  · simp only [valueWith, lifted_self, peek_bind, bracket, bind_ok, spanFrom_ok, pure_ok] at h
    obtain ⟨vs, c₁, items, o, _, ⟨origin, rfl⟩, rfl, rfl⟩ := h
    have r := any_reads reads _ _ ready items
    simp only [← Value.spellings_eq_row, ← Value.trees_eq_map] at r
    exact r.node (.value (.list o vs)) rfl (congrArg some origin) trivial
      (by simp [Node.kind, Value.kind])
  by_cases brace : c.current.kind = .punctuator .openBrace
  · simp only [valueWith, lifted_self, peek_bind, brace, bind_ok, spanFrom_ok, pure_ok] at h
    obtain ⟨fs, c₁, items, o, _, ⟨origin, rfl⟩, rfl, rfl⟩ := h
    have r := any_reads (objectField_reads reads) _ _ ready items
    simp only [← ObjectField.spellings_eq_row, ← ObjectField.trees_eq_map] at r
    exact r.node (.value (.object o fs)) rfl (congrArg some origin) trivial
      (by simp [Node.kind, Value.kind])
  · rw [valueWith_leaf ⟨bracket, brace⟩] at h
    exact leafValue_reads position ready h

/-- Values within a limit of levels. -/
theorem value_reads (position : Option ConstPosition) (levels : Nat) :
    Reads position.isSome levels (value position levels) (·.spelling) fun v => [v.tree] := by
  induction levels with
  | zero =>
    intro c c' v ready h
    simp [value] at h
  | succ levels ih => exact valueWith_reads ih

theorem namedType_reads : Reads const levels namedType (·.spelling) fun t => [t.tree] := by
  intro c c' t ready h
  simp only [namedType, bind_ok, pure_ok] at h
  obtain ⟨n, c₁, named, rfl, rfl⟩ := h
  obtain ⟨-, -, origin⟩ := name_ok ready named
  have r : Read const levels c c₁ _ [n.tree] := name_reads ready named
  exact r.node (.type (.nullable (.named ⟨n.origin, n⟩))) rfl origin trivial (by simp [Node.kind])

/-- The non-null mark after a type, if there is one. -/
theorem nonNullMark_reads {t : TypeRef} {bare : NullableType} {c₁ : Cursor} (ready : c.Ready)
    (r : Read const levels c c₁ bare.spelling [bare.tree])
    (h : (do
      if ← accept .bang then return .nonNull (some (← spanFrom c.current.start)) bare
      else return .nullable bare : Parser TypeRef) c₁ = .ok (t, c')) :
    Read const levels c c' t.spelling [t.tree] := by
  simp only [bind_ok] at h
  obtain ⟨b, c₂, accepted, h⟩ := h
  rcases accept_reads const levels (r.ready ready) accepted with ⟨rfl, bang⟩ | ⟨rfl, rfl⟩
  · simp only [↓reduceIte, bind_ok, spanFrom_ok, pure_ok] at h
    obtain ⟨o, _, ⟨origin, rfl⟩, rfl, rfl⟩ := h
    exact (r.skip bang).node (.type (.nonNull o bare)) rfl (congrArg some origin) trivial
      (by simp [Node.kind])
  · simp only [Bool.false_eq_true, ↓reduceIte, pure_ok] at h
    obtain ⟨rfl, rfl⟩ := h
    simpa only [TypeRef.spelling, TypeRef.tree] using r

/-- Types, given what is read as the elements of lists. -/
theorem typeRefWith_reads {p : Parser TypeRef}
    (reads : ∀ ⦃c c' e⦄, c.Ready → p c = .ok (e, c') →
      ∃ below, levels = below + 1 ∧ Read const below c c' e.spelling [e.tree]) :
    Reads const levels (typeRefWith p) (·.spelling) fun t => [t.tree] := by
  intro c c' t ready h
  simp only [typeRefWith, lifted_self, bind_ok, here_ok] at h
  obtain ⟨_, _, ⟨rfl, rfl⟩, b, c₁, accepted, h⟩ := h
  rcases accept_reads const (levels - 1) ready accepted with ⟨rfl, opened⟩ | ⟨rfl, rfl⟩
  · rw [if_pos rfl] at h
    obtain ⟨e, c₂, element, h⟩ := bind_ok.mp h
    obtain ⟨_, c₃, closed, h⟩ := bind_ok.mp h
    obtain ⟨o, _, at_end, h⟩ := bind_ok.mp h
    obtain ⟨origin, rfl⟩ := spanFrom_ok.mp at_end
    obtain ⟨below, rfl, r₂⟩ := reads (opened.ready ready) element
    have r₁ := opened.trans r₂
    have r : Read const below c c₃ _ [e.tree] := r₁.skip (expect_reads (r₁.ready ready) closed)
    have node : Read const (below + 1) c c₃ (NullableType.list o e).spelling
        [(NullableType.list o e).tree] :=
      r.node (.type (.nullable (.list o e))) rfl (congrArg some origin) trivial
        (by simp [Node.kind])
    exact nonNullMark_reads ready node h
  · rw [if_neg (by simp)] at h
    obtain ⟨_, c₁, mapped, h⟩ := bind_ok.mp h
    obtain ⟨t, named, rfl⟩ := map_ok.mp mapped
    have r : Read const levels c c₁ (NullableType.named t).spelling
        [(NullableType.named t).tree] := namedType_reads ready named
    exact nonNullMark_reads ready r h

/-- Types within a limit of lists in each other. -/
theorem typeRef_reads (levels : Nat) :
    Reads const levels (typeRef levels) (·.spelling) fun t => [t.tree] := by
  induction levels with
  | zero =>
    apply typeRefWith_reads
    intro c c' e ready h
    exact absurd h tooDeep_ok
  | succ levels ih =>
    apply typeRefWith_reads
    intro c c' e ready h
    exact ⟨levels, rfl, ih ready h⟩

end GraphQL.Parser
