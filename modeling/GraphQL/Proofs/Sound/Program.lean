import GraphQL.Proofs.Parser.Runs
import GraphQL.Proofs.Sound.Document

/-! Parsed documents against their sources: their tokens, and the rules that they keep. -/
namespace GraphQL

/-- A document is read from all words of its source. Its origin runs from the beginning of the text
to the end of the last word. -/
theorem parseDocument_ok {s : Source} {d : Document} (h : s.parseDocument = .ok d) :
    ∃ ts, s.Words ts ∧ d.definitions ≠ [] ∧
      (∃ last, ts.getLast? = some last ∧ d.origin = some ⟨s, .first, last.stop⟩) ∧
      Reading s false nestingLimit (d.spelling .free) (d.definitions.map (·.tree)) ts := by
  obtain ⟨c, c', opens, ran⟩ := Parser.run_ok h
  obtain ⟨some_definition, at_end, origin, ts, steps, reading⟩ :=
    Parser.document_ok opens.ready ran
  have words := opens.words steps at_end
  obtain ⟨first, rest, definitions⟩ := List.exists_cons_of_ne_nil some_definition
  rw [opens.source] at reading
  have ne : ts ≠ [] := by
    have trees := reading
    rw [definitions, List.map_cons] at trees
    exact trees.ne_nil
  refine ⟨ts, words, some_definition, ⟨_, List.getLast?_eq_some_getLast ne, ?_⟩, reading⟩
  rw [origin, steps.source, opens.source, steps.lastEnd, List.getLast?_eq_some_getLast ne]
  rfl

/-- The tokens of a source, all of them and in their order, spell the document that it is parsed
to. -/
theorem tokens_spell_document {s : Source} {d : Document} (h : s.parseDocument = .ok d) :
    ∃ ts, s.Words ts ∧ kinds ts ∈ d.spelling .free := by
  obtain ⟨ts, words, -, -, reading⟩ := parseDocument_ok h
  exact ⟨ts, words, reading.spelled⟩

theorem tokens_spell_query :
    ∃ s : Source, s.content = "\x7b a: b(x: 1, y: [$v \"s\"]) ... on T @d \x7b c \x7d \x7d" ∧
      ∃ d, s.parseDocument = .ok d ∧ ∃ ts, s.Words ts ∧ kinds ts ∈ d.spelling .free := by
  let s : Source := ⟨"\x7b a: b(x: 1, y: [$v \"s\"]) ... on T @d \x7b c \x7d \x7d", "q"⟩
  have parsed : s.parseDocument.isOk = true := by decide +kernel
  cases read : s.parseDocument with
  | ok d => exact ⟨s, rfl, d, read, tokens_spell_document read⟩
  | error e => simp [read, Except.isOk, Except.toBool] at parsed

/-- Every document that is parsed keeps all rules. -/
theorem parsed_document_wellFormed {s : Source} {d : Document} (h : s.parseDocument = .ok d) :
    d.WellFormed nestingLimit := by
  obtain ⟨ts, -, some_definition, -, reading⟩ := parseDocument_ok h
  have legal : d.tree.Legal false nestingLimit :=
    ⟨some_definition, by simp, nestingLimit, rfl, Tree.legalRow_iff.mpr reading.legal⟩
  obtain ⟨lawful, -, nesting⟩ := Tree.legal_iff.mp legal
  exact ⟨lawful, nesting⟩

theorem parsed_extension_wellFormed :
    ∃ s : Source,
      s.content = "extend enum E @d(x: [1]) \x7b A @e \x7d directive @d(x: T = 1) on | ENUM" ∧
      ∃ d, s.parseDocument = .ok d ∧ d.WellFormed nestingLimit := by
  let s : Source :=
    ⟨"extend enum E @d(x: [1]) \x7b A @e \x7d directive @d(x: T = 1) on | ENUM", "e"⟩
  have parsed : s.parseDocument.isOk = true := by decide +kernel
  cases read : s.parseDocument with
  | ok d => exact ⟨s, rfl, d, read, parsed_document_wellFormed read⟩
  | error e => simp [read, Except.isOk, Except.toBool] at parsed

end GraphQL
