import GraphQL.Parser
import GraphQL.Proofs.Layout.Productions
import GraphQL.Proofs.Scanner.Faults
import GraphQL.Proofs.Scanner.Rereading

/-! Layout does not matter: what parsing gives depends on the sorts of the tokens alone, and these do
not change with what stands between tokens. -/
namespace GraphQL
open Lexical

/-- Results that differ in places at most: things that are the same but for origins, or errors of
one kind with one message and the same notes. -/
inductive SameOutcome {α : Type} [Comparable α] :
    Except SyntaxError α → Except SyntaxError α → Prop
  | ok {a b : α} (same_trees : same false a b = true) : SameOutcome (.ok a) (.ok b)
  | error {e e' : SyntaxError} (violation : e.violation = e'.violation)
    (message : e.diagnostic.message = e'.diagnostic.message)
    (notes : e.diagnostic.notes.map (fun note => (note.kind, note.message)) =
      e'.diagnostic.notes.map fun note => (note.kind, note.message)) :
    SameOutcome (.error e) (.error e')

/-- Sources that are parsed alike, whatever is looked for in them. -/
structure Source.ParseAlike (s s' : Source) : Prop where
  document : SameOutcome s.parseDocument s'.parseDocument
  value : SameOutcome s.parseValue s'.parseValue
  constValue : SameOutcome s.parseConstValue s'.parseConstValue
  typeRef : SameOutcome s.parseTypeRef s'.parseTypeRef

/-- Sources with the same tokens, but for places, up to the end or to the same lexical error. -/
structure Source.SameTokens (s s' : Source) : Prop where
  kinds : kinds s.tokens.tokens = kinds s'.tokens.tokens
  failure : s.tokens.failure.map (·.violation) = s'.tokens.failure.map (·.violation)

theorem SyntaxError.Alike.sameOutcome {α : Type} [Comparable α] {e e' : SyntaxError}
    (alike : e.Alike e') : SameOutcome (.error e : Except SyntaxError α) (.error e') := by
  have unclosed := congrArg
    (List.map fun mark => (NoteKind.general, s!"unclosed `{mark.text}` opened here")) alike.unclosed
  refine .error alike.violation ?_ ?_
  · simp only [SyntaxError.diagnostic, alike.violation]
  · rw [List.map_map, List.map_map] at unclosed
    simp only [SyntaxError.diagnostic, List.map_append, List.map_map, alike.violation]
    exact congrArg _ unclosed

namespace Parser

variable {α : Type} [Comparable α] {p : Parser α} {s s' : Source}

theorem alone_same (h : SameRuns p p) : SameRuns (alone p) (alone p) :=
  h.bind fun _ _ same_a => Agree.expectEnd.bind fun _ _ _ => .pure same_a

theorem start_alike (h : s.SameTokens s') (limit : Nat) :
    (start s limit).Alike (start s' limit) where
  pending := congrArg (TokenKind.startOfInput :: ·) h.kinds
  failure := by
    have unclosed := (Scanner.start s).tokens_unclosed
    have unclosed' := (Scanner.start s').tokens_unclosed
    have violations := h.failure
    unfold Source.tokens at violations
    change Option.Rel SyntaxError.Alike (Scanner.start s).tokens.failure
      (Scanner.start s').tokens.failure
    generalize (Scanner.start s).tokens.failure = f, (Scanner.start s').tokens.failure = f'
      at violations unclosed unclosed'
    cases f with
    | none =>
      cases f' with
      | none => exact .none
      | some e' => cases violations
    | some e =>
      cases f' with
      | none => cases violations
      | some e' =>
        exact .some ⟨Option.some.inj violations, by rw [unclosed e rfl, unclosed' e' rfl]⟩
  limit := rfl

/-- A run sees nothing of a source but its tokens. -/
theorem run_same (h : SameRuns p p) (same_tokens : s.SameTokens s') (limit : Nat) :
    SameOutcome (run p s limit) (run p s' limit) := by
  have agree := (Agree.consumed h) (start_alike same_tokens limit)
  unfold run
  generalize (do let _ ← consume; p : Parser α) (start s limit) = x,
    (do let _ ← consume; p : Parser α) (start s' limit) = y at agree
  cases agree with
  | ok same_a alike => exact .ok same_a
  | error alike => exact alike.sameOutcome

end Parser

theorem Source.SameTokens.parseAlike {s s' : Source} (h : s.SameTokens s') : s.ParseAlike s' where
  document := Parser.run_same (Parser.document_same _) h _
  value := Parser.run_same (Parser.alone_same (Parser.value_same _ _)) h _
  constValue := Parser.run_same (Parser.alone_same (Parser.value_same _ _)) h _
  typeRef := Parser.run_same (Parser.alone_same (Parser.typeRef_same _)) h _

/-- One source is the other with more between its tokens: put in at an end of the text, or where a
token starts or stops. -/
def Source.Loosens (s s' : Source) : Prop :=
  ∃ before run after, Trivia run ∧ s.chars = before ++ after ∧ s'.chars = before ++ run ++ after ∧
    (before = [] ∨ after = [] ∨ Scanner.IsBoundary s.tokens.tokens (Text.byteLength before))

theorem Source.Loosens.tokens {s s' : Source} (h : s.Loosens s')
    (complete : s.tokens.failure = none) :
    GraphQL.kinds s'.tokens.tokens = GraphQL.kinds s.tokens.tokens ∧ s'.tokens.failure = none := by
  obtain ⟨before, run, after, trivia, text, text', boundary⟩ := h
  have first : (Scanner.start s).place.position.offset = 0 := rfl
  have reads : ReadsAs (before ++ run ++ after) (GraphQL.kinds s.tokens.tokens) :=
    (Scanner.start s).readsAs_insert trivia complete text (by rwa [first, Nat.zero_add])
  exact reads.tokens (.start s') text'

/-- Where tokens stand and what is between them does not matter. Sources with the same tokens are
parsed alike, as whatever they are parsed; and what separates tokens can be put between the tokens of
a text that can be read to its end, which leaves all of them as they are. -/
theorem layout_irrelevant (s s' : Source) :
    (s.SameTokens s' → s.ParseAlike s') ∧
    (s.tokens.failure = none → s.Loosens s' →
      s'.tokens.failure = none ∧
      (s'.tokens.tokens.map fun t => t.kind) = (s.tokens.tokens.map fun t => t.kind) ∧
      s.ParseAlike s') := by
  refine ⟨fun same_tokens => same_tokens.parseAlike, fun complete loosens => ?_⟩
  obtain ⟨same_kinds, complete'⟩ := loosens.tokens complete
  have same_tokens : s.SameTokens s' := ⟨same_kinds.symm, by rw [complete, complete']⟩
  exact ⟨complete', same_kinds, same_tokens.parseAlike⟩

/-- A selection set, and the same one with a comma and a comment in it. -/
theorem layout_irrelevant_selection :
    let s : Source := ⟨"\x7ba\x7d", "tight"⟩
    let s' : Source := ⟨"\x7b, # b\na\x7d", "loose"⟩
    s.tokens.failure = none ∧ s.Loosens s' ∧ s.SameTokens s' ∧ s.ParseAlike s' ∧
      s'.tokens.failure = none ∧
      (s'.tokens.tokens.map fun t => t.kind) = (s.tokens.tokens.map fun t => t.kind) := by
  intro s s'
  have complete : s.tokens.failure = none := by cbv
  have stops : (s.tokens.tokens.map fun t => t.stop.offset) = [1, 2, 3, 3] := by cbv
  have loosens : s.Loosens s' := by
    refine ⟨['\x7b'], [',', ' ', '#', ' ', 'b', '\n'], ['a', '\x7d'], ?_, by cbv, by cbv,
      .inr (.inr ?_)⟩
    · have inside : ∀ x ∈ [' ', 'b'], Text.isTerminator x = false := by simp [Text.isTerminator]
      exact .blank (by simp) (.blank (by simp) (.comment inside rfl .nil))
    · obtain ⟨t, ht, stop⟩ := List.mem_map.mp (stops ▸ List.mem_cons_self)
      exact ⟨t, ht, .inr stop.symm⟩
  have same_tokens : s.SameTokens s' := ⟨by cbv, by cbv⟩
  obtain ⟨alike, put_in⟩ := layout_irrelevant s s'
  obtain ⟨complete', same_kinds, -⟩ := put_in complete loosens
  exact ⟨complete, loosens, same_tokens, alike same_tokens, complete', same_kinds⟩

end GraphQL
