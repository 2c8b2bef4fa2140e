import GraphQL.Parser
import GraphQL.Proofs.Parser.Faces
import GraphQL.Proofs.Scanner.Stream
import GraphQL.Proofs.Sound.Repetition

/-! Runs of parsers on sources, from the first token to the end of the input. -/
namespace GraphQL

/-- A cursor on the first token of a source. -/
structure Cursor.Opens (c : Cursor) (s : Source) : Prop where
  source : c.source = s
  pending : c.pending = s.tokens.tokens
  failure : c.failure = s.tokens.failure

namespace Cursor.Opens

variable {c c' : Cursor} {s : Source} {ts : List Token}

theorem ready (opens : c.Opens s) : c.Ready := by
  obtain ⟨us, words, ends⟩ := (Scanner.start s).tokens_words
  have all := opens.pending
  have failure := opens.failure
  rw [Source.tokens] at all failure
  constructor
  · intro none t ht
    rcases ends with ⟨-, cut⟩ | ⟨e, stream, last⟩
    · exact absurd (failure ▸ none) cut
    · rw [all, stream] at ht
      simp at ht
      exact ht ▸ last
  · intro t ht text kind
    rcases ends with ⟨stream, -⟩ | ⟨e, stream, last⟩
    · rw [all, stream] at ht
      exact (words t ht).name text kind
    · rw [all, stream] at ht
      rcases List.mem_append.mp ht with ht | ht
      · exact (words t ht).name text kind
      · rw [List.mem_singleton] at ht
        subst ht
        rw [last] at kind
        cases kind

/-- A parser that comes to the end of the input has consumed all words. -/
theorem words (opens : c.Opens s) (steps : Consumes c ts c')
    (at_end : c'.current.kind = .endOfInput) : s.Words ts := by
  have tokens : s.tokens.tokens = ts ++ c'.current :: c'.upcoming := by
    rw [← opens.pending, steps.pending]
    rfl
  exact .of_append tokens at_end

end Cursor.Opens

namespace Parser

variable {α : Type} {s : Source} {limit : Nat}

theorem run_ok {p : Parser α} {a : α} (h : run p s limit = .ok a) :
    ∃ c c', c.Opens s ∧ p c = .ok (a, c') := by
  unfold run at h
  split at h
  · cases h
  · next c' ran =>
    cases h
    obtain ⟨t, c, consumed, ran⟩ := bind_ok.mp ran
    refine ⟨c, c', ?_, ran⟩
    unfold consume at consumed
    split at consumed
    · next t ts upcoming =>
      cases consumed
      exact ⟨rfl, upcoming.symm, rfl⟩
    · next upcoming =>
      split at consumed
      · cases consumed
      · next failure =>
        obtain ⟨us, -, ⟨-, cut⟩ | ⟨e, all, -⟩⟩ := (Scanner.start s).tokens_words
        · exact absurd failure cut
        · simp [start, Source.tokens, all] at upcoming

theorem alone_ok {p : Parser α} {c c' : Cursor} {a : α} (h : alone p c = .ok (a, c')) :
    p c = .ok (a, c') ∧ c'.current.kind = .endOfInput := by
  simp only [alone, lifted_self, bind_ok, expectEnd_ok, pure_ok] at h
  obtain ⟨a, c₁, ran, _, _, ⟨at_end, rfl⟩, rfl, rfl⟩ := h
  exact ⟨ran, at_end⟩

/-- Parsers run from the first token of a source. -/
theorem run_opened (some_token : s.tokens.tokens ≠ []) (limit : Nat) :
    ∃ c : Cursor, c.Opens s ∧ c.limit = limit ∧
      ∀ p : Parser α, run p s limit = (p c).map (·.1) := by
  obtain ⟨t, ts, stream⟩ := List.exists_cons_of_ne_nil some_token
  refine ⟨⟨s, limit, t, ts, s.tokens.failure, .first⟩, ⟨rfl, stream.symm, rfl⟩, rfl, fun p => ?_⟩
  have consumed : consume (start s limit) = .ok (⟨.startOfInput, .first, .first⟩,
      ⟨s, limit, t, ts, s.tokens.failure, .first⟩) := by
    simp only [consume, start, stream]
  rw [run, bind_result, consumed]
  split <;> simp_all [Except.map]

/-- A run on a source whose tokens are known. -/
theorem run_faces {p : Parser α} {ks : List TokenKind} {P : α → Prop} (some_token : ks ≠ [])
    (tokens : kinds s.tokens.tokens = ks) (complete : s.tokens.failure = none)
    (ran : ∀ ⦃c : Cursor⦄, c.Faces ks → ∃ a c', p c = .ok (a, c') ∧ P a) :
    ∃ a, run p s limit = .ok a ∧ P a := by
  have stream : s.tokens.tokens ≠ [] := by
    intro none
    exact some_token (by rw [← tokens, none]; rfl)
  obtain ⟨c, opens, -, runs⟩ := run_opened stream limit
  obtain ⟨a, c', ran, holds⟩ := ran ⟨by rw [opens.pending, tokens], by rw [opens.failure, complete]⟩
  refine ⟨a, ?_, holds⟩
  rw [runs, ran]
  rfl

end Parser
end GraphQL
