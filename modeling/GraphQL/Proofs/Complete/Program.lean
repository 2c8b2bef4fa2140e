import GraphQL.Proofs.Complete.Document
import GraphQL.Proofs.Parser.Runs
import GraphQL.Proofs.Scanner.Spaced

/-! Documents that keep the rules are read back from the texts that spell them. -/
namespace GraphQL

open Spelling

/-- Numbers and strings: the tokens that keep a text of their own form. -/
def TokenKind.isLiteral : TokenKind → Bool
  | .int _ | .float _ | .string _ | .blockString _ => true
  | _ => false

/-- Marks and names are always read as they are written; numbers and strings if they are well
formed. -/
theorem TokenKind.IsWord.lexes {k : TokenKind} (word : k.IsWord)
    (literal : k.isLiteral = true → k.Lexes) : k.Lexes := by
  cases k with
  | punctuator m => exact lexes_mark m
  | name text => exact lexes_name (word.name text rfl)
  | startOfInput => exact absurd rfl word.notStart
  | endOfInput => exact absurd rfl word.notEnd
  | _ => exact literal rfl

/-- A document that keeps all rules is what its plain spellings are parsed to, up to origins. -/
theorem parse_plain_spelling {d : Document} {ks : List TokenKind} (name : String)
    (wellFormed : d.WellFormed nestingLimit) (spelled : ks ∈ d.spelling .plain)
    (literals : ∀ k ∈ ks, k.isLiteral = true → k.Lexes) :
    ∃ d', (⟨spaced ks, name⟩ : Source).parseDocument = .ok d' ∧ same false d' d = true := by
  obtain ⟨words, parses⟩ := Parser.document_restores wellFormed spelled
  have lexes : ∀ k ∈ ks, k.Lexes := fun k hk => (words k hk).lexes (literals k hk)
  have scanned := Scanner.tokens_spaced (s := .start ⟨spaced ks, name⟩) lexes
    (splitIgnored_spaced lexes)
  exact Parser.run_faces (by simp) scanned.1 scanned.2 parses

/-- Names that are keywords elsewhere, an alias, an empty string and an inline fragment. -/
def keywordQuery : Document :=
  ⟨none, [.operation ⟨none, .query, some ⟨none, "on"⟩,
    [⟨none, ⟨none, "type"⟩, .nullable (.list none (.nonNull none (.named ⟨none, ⟨none, "on"⟩⟩))),
      none, []⟩], [],
    ⟨none, [
      .field ⟨none, some ⟨none, "true"⟩, ⟨none, "query"⟩,
        [⟨none, ⟨none, "on"⟩, .string ⟨none, "", false⟩⟩], [], none⟩,
      .inlineFragment ⟨none, some ⟨none, ⟨none, "on"⟩⟩, [⟨none, ⟨none, "repeatable"⟩, []⟩],
        ⟨none, [.field ⟨none, none, ⟨none, "fragment"⟩, [], [], none⟩]⟩⟩]⟩⟩]⟩

def keywordQueryTokens : List TokenKind :=
  [.name "query", .name "on", .punctuator .openParen, .punctuator .dollar, .name "type",
    .punctuator .colon, .punctuator .openBracket, .name "on", .punctuator .bang,
    .punctuator .closeBracket, .punctuator .closeParen, .punctuator .openBrace, .name "true",
    .punctuator .colon, .name "query", .punctuator .openParen, .name "on", .punctuator .colon,
    .string "\"\"", .punctuator .closeParen, .punctuator .ellipsis, .name "on", .name "on",
    .punctuator .atSign, .name "repeatable", .punctuator .openBrace, .name "fragment",
    .punctuator .closeBrace, .punctuator .closeBrace]

theorem keywordQuery_wellFormed : keywordQuery.WellFormed nestingLimit where
  lawful := by
    have names : IsName "on" ∧ IsName "type" ∧ IsName "true" ∧ IsName "query" ∧
        IsName "repeatable" ∧ IsName "fragment" := by decide
    simp [keywordQuery, Document.tree, Definition.tree, OperationDefinition.tree,
      VariableDefinition.tree, Name.tree, NamedType.tree, NullableType.tree, TypeRef.tree,
      SelectionSet.tree, Selection.trees, Selection.tree, Field.tree, Argument.tree, Value.tree,
      StringValue.tree, InlineFragment.tree, Directive.tree, SelectionSet.optionalTree, Tree.leaf,
      Tree.preorder, Tree.preorderOf, Node.IsLawful, AllConst, names]
  nesting := by decide

theorem keywordQuery_spelled : keywordQueryTokens ∈ keywordQuery.spelling .plain := by
  simp only [Document.spelling, keywordQuery, row_cons, row_nil, mul_one, Definition.spelling]
  refine .inl ?_
  have string : (TokenKind.string "\"\"").stringValue? = some (.ok "") := by cbv
  simp only [keywordQueryTokens, mul_assoc, mem_word_mul, maybe, OperationKind.keyword,
    Name.spelling, VariableDefinition.spelling, TypeRef.spelling, NullableType.spelling,
    NamedType.spelling, defaultSpelling, SelectionSet.spelling_eq, Selection.spelling,
    Field.spelling_eq, Argument.spelling, InlineFragment.spelling_eq, Directive.spelling, block,
    row_cons, row_nil, one_mul, mul_one, List.cons.injEq, true_and, exists_eq_right']
  rw [Language.mem_mul]
  refine ⟨[.string "\"\""], ⟨_, ⟨string, rfl⟩, rfl⟩, _, ?_, rfl⟩
  simp [mem_word_mul]

def keywordQueryText : String :=
  "query on ( $ type : [ on ! ] ) \x7b true : query ( on : \"\" ) " ++
    "... on on @ repeatable \x7b fragment \x7d \x7d"

theorem parse_keywordQuery :
    ∃ d', (⟨keywordQueryText, "k"⟩ : Source).parseDocument = .ok d' ∧
      same false d' keywordQuery = true := by
  have text : spaced keywordQueryTokens = keywordQueryText := by decide
  have quotes : ∀ k ∈ keywordQueryTokens, k.isLiteral = true → k = .string "\"\"" := by decide
  have literals : ∀ k ∈ keywordQueryTokens, k.isLiteral = true → k.Lexes := by
    intro k hk literal
    rw [quotes k hk literal]
    exact ⟨_, _, rfl, rfl⟩
  rw [← text]
  exact parse_plain_spelling "k" keywordQuery_wellFormed keywordQuery_spelled literals

end GraphQL
