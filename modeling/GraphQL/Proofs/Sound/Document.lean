import GraphQL.Proofs.Sound.TypeSystem

/-! What the parser of documents reads. The keyword after a description decides what is read, so
each parser of a definition meets the keyword that it consumes. -/
namespace GraphQL.Parser

open Spelling

variable {levels : Nat} {c c' : Cursor}

/-- The token that a definition is recognized by: the one after a description, if there is one. -/
structure Leads (c : Cursor) (t : Token) : Prop where
  described : c.current.kind.isString = true →
    ∀ ⦃u c₁⦄, consume c = .ok (u, c₁) → c₁.current = t
  bare : c.current.kind.isString = false → c.current = t

/-- A description leads on to the token that a definition is recognized by. -/
theorem Leads.optionalString {t : Token} {o : Option StringValue} (leads : Leads c t)
    (ready : c.Ready) (h : optionalString c = .ok (o, c')) : c'.current = t := by
  rcases optionalString_ok ready h with ⟨-, bare, rfl⟩ | ⟨s, -, string, -, consumed, -⟩
  · exact leads.bare bare
  · exact leads.described string consumed

/-- A definition from the choice of a sort on. -/
theorem definitionBy_reads {t : Token} {d : Definition} (ready : c.Ready) (leads : Leads c t)
    (h : definitionBy (m := Parser) (levels + 1) c.current t c = .ok (d, c')) :
    Read false (levels + 1) c c' (d.spelling .free) [d.tree] := by
  simp only [definitionBy, lifted_self] at h
  split at h
  · simp at h
  · next fitting =>
    cases known : DefinitionKeyword.ofToken? t.kind with
    | none => simp [known] at h
    | some w =>
      have kind := DefinitionKeyword.ofToken?_eq_some known
      simp only [known] at h
      cases w with
      | operation k =>
        obtain ⟨o, found, rfl⟩ := map_ok.mp h
        exact operation_reads ready found
      | fragment =>
        obtain ⟨f, found, rfl⟩ := map_ok.mp h
        exact fragment_reads ready found
      | schema =>
        obtain ⟨s, found, rfl⟩ := map_ok.mp h
        exact (schemaDefinition_reads ready found).relax
      | directive =>
        obtain ⟨d, found, rfl⟩ := map_ok.mp h
        exact (directiveDefinition_reads ready found).relax
      | extend =>
        have bare : c.current.kind.isString = false := by
          simpa [known, DefinitionKeyword.isDescribable] using fitting
        rw [← leads.bare bare] at kind
        exact (extension_reads ready kind h).relax
      | type form =>
        obtain ⟨t, found, rfl⟩ := map_ok.mp h
        have keyword : ∀ o c₁, optionalString c = .ok (o, c₁) →
            c₁.current.kind = .name form.keyword := by
          intro o c₁ described
          rw [leads.optionalString ready described]
          exact kind
        exact (typeDefinition_reads ready keyword found).relax

theorem definition_reads :
    Reads false (levels + 1) (definition (levels + 1)) (·.spelling .free) fun d => [d.tree] := by
  intro c c' d ready h
  simp only [definition, lifted_self, bind_ok, peek_ok] at h
  obtain ⟨_, _, ⟨rfl, rfl⟩, h⟩ := h
  split at h
  · obtain ⟨o, found, rfl⟩ := map_ok.mp h
    exact operation_reads ready found
  · split at h
    · next string =>
      obtain ⟨t, c₁, found, h⟩ := bind_ok.mp h
      have more : c.current.kind ≠ .endOfInput := by
        intro kind
        simp [kind, TokenKind.isString] at string
      obtain ⟨rfl, ahead⟩ := lookahead_ok ready more found
      exact definitionBy_reads ready ⟨fun _ => ahead, by simp [string]⟩ h
    · next bare =>
      obtain ⟨t, c₁, found, h⟩ := bind_ok.mp h
      obtain ⟨rfl, rfl⟩ := peek_ok.mp found
      exact definitionBy_reads ready ⟨by simp [bare], fun _ => rfl⟩ h

/-- Definitions are read up to the end of the input. -/
theorem definitions_ok {ds : List Definition} (ready : c.Ready)
    (h : definitions (m := Parser) (levels + 1) c = .ok (ds, c')) :
    c'.current.kind = .endOfInput ∧
      Read false (levels + 1) c c' (row (·.spelling .free) ds) (ds.map (·.tree)) := by
  have reads : Reads false (levels + 1)
      (do
        let t ← peek
        if t.kind = .endOfInput then return none
        else return some (← definition (levels + 1)) : Parser (Option Definition))
      (·.elim 1 (·.spelling .free)) (·.toList.map (·.tree)) := by
    intro c c' o ready h
    simp only [bind_ok, peek_ok] at h
    obtain ⟨_, _, ⟨rfl, rfl⟩, h⟩ := h
    split at h
    · obtain ⟨rfl, rfl⟩ := pure_ok.mp h
      exact .refl c
    · simp only [bind_ok, pure_ok] at h
      obtain ⟨d, c₁, found, rfl, rfl⟩ := h
      exact definition_reads ready found
  refine ⟨?_, collect_reads_row reads ready h⟩
  obtain ⟨c₀, last⟩ := collect_stops reads ready h
  simp only [bind_ok, peek_ok] at last
  obtain ⟨_, _, ⟨rfl, rfl⟩, last⟩ := last
  split at last
  · next at_end =>
    obtain ⟨-, rfl⟩ := pure_ok.mp last
    exact at_end
  · simp at last

/-- A document is read up to the end of the input; only its origin does not start at its first
token. -/
theorem document_ok {d : Document} (ready : c.Ready)
    (h : document (m := Parser) (levels + 1) c = .ok (d, c')) :
    d.definitions ≠ [] ∧ c'.current.kind = .endOfInput ∧
      d.origin = some ⟨c'.source, .first, c'.lastEnd⟩ ∧
      Read false (levels + 1) c c' (d.spelling .free) (d.definitions.map (·.tree)) := by
  simp only [document, lifted_self, bind_ok, spanFrom_ok, pure_ok] at h
  obtain ⟨first, c₁, found, rest, c₂, loop, o, _, ⟨rfl, rfl⟩, rfl, rfl⟩ := h
  have r₁ := definition_reads ready found
  obtain ⟨at_end, r₂⟩ := definitions_ok (r₁.ready ready) loop
  refine ⟨by simp, at_end, rfl, ?_⟩
  simp only [Document.spelling, row_cons]
  exact r₁.trans r₂

end GraphQL.Parser
