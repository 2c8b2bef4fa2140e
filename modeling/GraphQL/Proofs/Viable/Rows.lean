import GraphQL.Proofs.Complete.Document
import GraphQL.Proofs.Layout.Productions
import GraphQL.Proofs.Reparsing
import GraphQL.Proofs.Viable.Prefixes
import GraphQL.Proofs.Viable.Prompt

/-! Rows of definitions: those before the one that a document fails in, and how they are read again in
front of another one. -/
namespace GraphQL

open Spelling

theorem Cursor.Whole.steady {c : Cursor} (w : c.Whole) : c.Steady :=
  ⟨w.ready, by simp [w.complete]⟩

/-- Tokens that lead to a place start with the current one, and so do those that go on there. -/
theorem Consumes.head_kinds {c d : Cursor} {ts : List Token} {ks : List TokenKind}
    (h : Consumes c ts d) (next : ks.head? = some d.current.kind) :
    (kinds ts ++ ks).head? = some c.current.kind := by
  cases ts with
  | nil =>
    have same := List.cons.inj h.pending
    rw [same.1]
    exact next
  | cons t ts =>
    have first := h.head? (by simp)
    simp only [List.head?_cons, Option.some.injEq] at first
    simp [kinds, first]

namespace Parser

variable {levels : Nat} {c c' c₀ c₁ : Cursor} {e : SyntaxError} {d : Definition}
  {ks : List TokenKind} {ts : List Token}

theorem bind_error {α β : Type} {p : Parser α} {f : α → Parser β} :
    (p >>= f) c = .error e ↔
      p c = .error e ∨ ∃ a c₁, p c = .ok (a, c₁) ∧ f a c₁ = .error e := by
  rw [bind_result]
  rcases p c with e' | ⟨a, c₁⟩ <;> simp

/-- Whole definitions between two places, with these tokens. -/
inductive Row (levels : Nat) : Cursor → List Token → Cursor → Prop
  | nil (c : Cursor) : Row levels c [] c
  | cons {d : Definition} {c c₁ c₀ : Cursor} {ts us : List Token}
    (read : definition (m := Parser) levels c = .ok (d, c₁)) (steps : Consumes c ts c₁)
    (later : Row levels c₁ us c₀) : Row levels c (ts ++ us) c₀

theorem Row.consumes (h : Row levels c ts c₀) : Consumes c ts c₀ := by
  induction h with
  | nil c => exact .refl c
  | cons read steps later ih => exact steps.trans ih

/-- A row is empty or ends with a definition. -/
theorem Row.nothing_or_last (h : Row levels c ts c₀) :
    ts = [] ∧ c = c₀ ∨ ∃ before c₁ d us, Row levels c before c₁ ∧
      definition (m := Parser) levels c₁ = .ok (d, c₀) ∧ Consumes c₁ us c₀ ∧ ts = before ++ us := by
  induction h with
  | nil c => exact .inl ⟨rfl, rfl⟩
  | @cons d c c₁ c₀ ts us read steps later ih =>
    rcases ih with ⟨rfl, rfl⟩ | ⟨before, c₂, d', vs, row, read', steps', rfl⟩
    · exact .inr ⟨[], c, d, ts, .nil c, read, steps, by simp⟩
    · exact .inr ⟨ts ++ before, c₂, d', vs, .cons read steps row, read', steps', by simp⟩

/-- What is read as a definition is one, and it has tokens. -/
theorem definition_passes (whole : c.Whole)
    (read : definition (m := Parser) (levels + 1) c = .ok (d, c₁)) :
    ∃ ts, Consumes c ts c₁ ∧ kinds ts ∈ Definitions (levels + 1) ∧ ts ≠ [] := by
  have run : ViableAt (Proper (levels + 1)) (Definitions (levels + 1)) c
      (definition (m := Parser) (levels + 1) c) := definition_viable.run whole
  rw [read] at run
  obtain ⟨ts, steps, mem, -⟩ := run
  refine ⟨ts, steps, mem, ?_⟩
  rintro rfl
  exact nil_notMem_legally Definition.node Definition.node_tree Definition.node_spelling mem

theorem definition_not_at_end (read : definition (m := Parser) levels c = .ok (d, c₁)) :
    c.current.kind ≠ .endOfInput := by
  intro kind
  simp only [definition, definitionBy, lifted_self] at read
  rw [peek_bind, if_neg (by simp [kind])] at read
  simp [kind, TokenKind.isString, peek_bind, DefinitionKeyword.ofToken?, Parser.unexpected,
    Parser.unexpectedAt] at read

theorem definitions_end (at_end : c.current.kind = .endOfInput) :
    definitions (m := Parser) levels c = .ok ([], c) := by
  simp only [definitions, lifted_self, repeated_eq_collect]
  rw [collect, peek_bind, if_pos at_end]
  rfl

theorem definitions_more (whole : c.Whole) (more : c.current.kind ≠ .endOfInput) :
    definitions (m := Parser) (levels + 1) c =
      (do return (← definition (levels + 1)) :: (← definitions (levels + 1)) :
        Parser (List Definition)) c := by
  simp only [definitions, lifted_self, repeated_eq_collect]
  rw [collect_onward]
  · rw [bind_result, peek_bind, if_neg more, bind_result, bind_result]
    cases definition (m := Parser) (levels + 1) c <;> rfl
  · intro d c₁ read
    rw [peek_bind, if_neg more] at read
    obtain ⟨d', c₂, read, last⟩ := bind_ok.mp read
    cases last
    obtain ⟨ts, steps, -, some_token⟩ := definition_passes whole read
    exact steps.length_lt some_token

section Failing

variable {P : Cursor → Prop}
  (keeps : ∀ ⦃c d c₁⦄, P c → definition (m := Parser) levels c = .ok (d, c₁) →
    ∃ ts, Consumes c ts c₁ ∧ P c₁)
include keeps

/-- The definition that a row of definitions fails in. What definitions keep holds there as well. -/
theorem definitions_error (holds : P c) (failed : definitions (m := Parser) levels c = .error e) :
    ∃ ts c₀, Row levels c ts c₀ ∧ P c₀ ∧ definition (m := Parser) levels c₀ = .error e := by
  simp only [definitions, lifted_self, repeated_eq_collect] at failed
  fun_induction collect _ c with
  | case1 c e' ran =>
    cases failed
    rw [peek_bind] at ran
    split at ran
    · cases ran
    · rcases bind_error.mp ran with failed | ⟨d, c₁, -, last⟩
      · exact ⟨[], c, .nil c, holds, failed⟩
      · cases last
  | case2 c c' ran => cases failed
  | case3 c d c₁ ran shorter e' rest ih =>
    cases failed
    rw [peek_bind] at ran
    split at ran
    · cases ran
    · obtain ⟨d', c₂, read, last⟩ := bind_ok.mp ran
      cases last
      obtain ⟨ts, steps, holds'⟩ := keeps holds read
      obtain ⟨us, c₀, row, last⟩ := ih holds' rest
      exact ⟨ts ++ us, c₀, .cons read steps row, last⟩
  | case4 c d c₁ ran shorter ds c₂ rest ih => cases failed
  | case5 c d c₁ ran shorter => cases failed

/-- The definition that a document fails in. -/
theorem document_error (holds : P c) (failed : document (m := Parser) levels c = .error e) :
    ∃ ts c₀, Row levels c ts c₀ ∧ P c₀ ∧ definition (m := Parser) levels c₀ = .error e := by
  rcases bind_error.mp failed with failed | ⟨d, c₁, read, failed⟩
  · exact ⟨[], c, .nil c, holds, failed⟩
  · obtain ⟨ts, steps, holds'⟩ := keeps holds read
    rcases bind_error.mp failed with failed | ⟨ds, c₂, -, failed⟩
    · obtain ⟨us, c₀, row, last⟩ := definitions_error keeps holds' failed
      exact ⟨ts ++ us, c₀, .cons read steps row, last⟩
    · cases failed

end Failing

theorem definition_whole (whole : c.Whole)
    (read : definition (m := Parser) (levels + 1) c = .ok (d, c₁)) :
    ∃ ts, Consumes c ts c₁ ∧ c₁.Whole := by
  obtain ⟨ts, steps, -⟩ := definition_passes whole read
  exact ⟨ts, steps, steps.whole whole⟩

/-- A row of definitions is read again wherever its tokens stand in front of another definition and the
end of the input. -/
theorem Row.rereads (row : Row (levels + 1) c ts c₀) (whole : c.Whole) (whole' : c'.Whole)
    (limit : c.limit = c'.limit) (legal : d.tree.Legal false (levels + 1))
    (spelled : ks ∈ d.spelling .free) (next : ts = [] ∨ ks.head? = some c₀.current.kind)
    (faces : kinds c'.pending = kinds ts ++ (ks ++ [.endOfInput])) :
    ∃ d c₁ ds c₂, definition (m := Parser) (levels + 1) c' = .ok (d, c₁) ∧
      definitions (m := Parser) (levels + 1) c₁ = .ok (ds, c₂) := by
  induction row generalizing c' with
  | nil c =>
    obtain ⟨d', c₁, read, -, faces₁⟩ := (definition_restores legal spelled).2
      ⟨faces, whole'.complete⟩ (Follows.cons_iff.mpr (by simp [typeContinuations]))
    exact ⟨d', c₁, [], c₁, read, definitions_end faces₁.kind⟩
  | @cons d₁ c c₁ c₀ ts us read steps later ih =>
    obtain ⟨ts', steps', -, some_token⟩ := definition_passes whole read
    obtain rfl := steps.unique steps'
    have next' : ks.head? = some c₀.current.kind := next.resolve_left (by simp [some_token])
    obtain ⟨rest, heads⟩ : ∃ rest,
        kinds us ++ (ks ++ [.endOfInput]) = c₁.current.kind :: rest := by
      have first : (ks ++ [TokenKind.endOfInput]).head? = some c₀.current.kind := by simp [next']
      exact List.head?_eq_some_iff.mp (later.consumes.head_kinds first)
    have shared : kinds c'.pending = kinds ts ++ c₁.current.kind :: rest := by
      rw [← heads, faces, kinds, kinds, kinds, List.map_append, List.append_assoc]
    obtain ⟨d', us', c₁', read', steps', limit', faces'⟩ :=
      definition_prompt.replays (definition_same _) whole.steady whole'.steady limit read steps shared
    have whole₁ := steps'.whole whole'
    obtain ⟨d₂, c₂, ds, c₃, first, others⟩ :=
      ih (steps.whole whole) whole₁ limit' (.inr next') (faces'.trans heads.symm)
    refine ⟨d', c₁', d₂ :: ds, c₃, read', ?_⟩
    rw [definitions_more whole₁ (definition_not_at_end first), bind_eq first, bind_eq others]
    rfl

end Parser
end GraphQL
