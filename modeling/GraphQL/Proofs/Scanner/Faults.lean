import GraphQL.Proofs.Scanner.Stream

/-! What cuts a stream of tokens off: a fault of the text, which stands after all tokens. Tokens
stand in the order of the text. -/
namespace GraphQL

namespace Lexeme

/-- Faults that lexemes can have. -/
def IsLexical : Violation → Prop
  | .character _ | .dots _ | .loneMinus | .number _ _ | .openString _ | .openBlockString
  | .characterInString _ => True
  | _ => False

/-- Where a lexeme is at fault, the fault is lexical. -/
def FaultsLexically (l : Lexeme) : Prop := ∀ v, l.outcome = .error v → IsLexical v

theorem faultsLexically_token (k : TokenKind) (taken rest : List Char) :
    (token k taken rest).FaultsLexically := by
  intro v h
  cases h

theorem faultsLexically_fault {v : Violation} {taken rest : List Char} (h : IsLexical v) :
    (fault v taken rest).FaultsLexically := by
  intro v' h'
  cases h'
  exact h

theorem faultsLexically_dots (cs : List Char) : (dots cs).FaultsLexically := by
  unfold dots
  dsimp only
  split
  · split
    · split
      · exact faultsLexically_token _ _ _
      · exact faultsLexically_fault trivial
    · exact faultsLexically_fault trivial
  · exact faultsLexically_fault trivial

theorem faultsLexically_number (cs : List Char) : (number cs).FaultsLexically := by
  unfold number
  dsimp only
  split
  · exact faultsLexically_fault trivial
  · exact faultsLexically_fault trivial
  · split
    · exact faultsLexically_fault trivial
    · exact faultsLexically_token _ _ _

theorem faultsLexically_string (cs : List Char) : (string cs).FaultsLexically := by
  unfold string
  dsimp only
  split
  · exact faultsLexically_fault trivial
  · exact faultsLexically_token _ _ _
  · split
    · exact faultsLexically_fault trivial
    · intro v h
      cases h
      trivial

theorem faultsLexically_blockString (cs : List Char) : (blockString cs).FaultsLexically := by
  unfold blockString
  dsimp only
  split
  · exact faultsLexically_token _ _ _
  · exact faultsLexically_fault trivial
  · intro v h
    cases h
    trivial

theorem faultsLexically_read (c : Char) (cs : List Char) : (read c cs).FaultsLexically := by
  unfold read
  split
  · exact faultsLexically_token _ _ _
  · split_ifs
    · exact faultsLexically_dots cs
    · unfold anyString
      split
      · exact faultsLexically_blockString _
      · exact faultsLexically_string _
    · exact faultsLexically_token _ _ _
    · exact faultsLexically_number _
    · exact faultsLexically_fault trivial

end Lexeme

namespace Scanner

/-- An error stands at what is left, and is about the text alone. -/
theorem next_error {s s' : Scanner} {e : SyntaxError} (h : s.next = (.error e, s')) :
    s.place.position.offset ≤ e.origin.start.offset ∧
      e.origin.start.offset ≤ e.origin.stop.offset ∧ Lexeme.IsLexical e.violation ∧
      e.unclosed = [] := by
  unfold next at h
  simp only [skipIgnored_eq, moveOver] at h
  split at h
  · cases h
  · next c cs _ =>
    have lexical := Lexeme.faultsLexically_read c cs
    generalize Lexeme.read c cs = l at h lexical
    obtain ⟨located, -⟩ := Prod.mk.inj h
    unfold locate at located
    dsimp only at located
    cases outcome : l.outcome with
    | ok k => simp [outcome] at located
    | error v =>
      simp only [outcome, Except.error.injEq] at located
      subst located
      refine ⟨?_, ?_, lexical v outcome, rfl⟩
      · simp only [Place.pass_offset]
        omega
      · simp only [Place.pass_offset, Text.byteLength_append]
        omega

/-- Places in a stream follow one another, and the error that cuts it off comes last. -/
structure Ordered (bound : Nat) (stream : TokenStream) : Prop where
  starts : ∀ t ∈ stream.tokens, bound ≤ t.start.offset
  pairwise : stream.tokens.Pairwise fun a b => a.start.offset ≤ b.start.offset
  fault : ∀ e ∈ stream.failure, bound ≤ e.origin.start.offset ∧
    ∀ t ∈ stream.tokens, t.start.offset ≤ e.origin.start.offset

theorem tokens_ordered (s : Scanner) : Ordered s.place.position.offset s.tokens := by
  fun_induction tokens s with
  | case1 s e s' h =>
    refine ⟨by simp, .nil, ?_⟩
    intro e' he'
    cases he'
    exact ⟨(next_error h).1, by simp⟩
  | case2 s t s' h last =>
    obtain ⟨-, -, gap, -, start, -, -⟩ := next_ok h
    refine ⟨?_, List.pairwise_singleton _ _, by simp⟩
    simp [start]
  | case3 s t s' h more later ih =>
    obtain ⟨-, -, gap, -, start, place, -⟩ := next_ok h
    have first : s.place.position.offset ≤ t.start.offset := by simp [start]
    have next : t.start.offset ≤ s'.place.position.offset := by
      simp only [start, place, Place.pass_offset, Text.byteLength_append]
      omega
    constructor
    · intro u hu
      rcases List.mem_cons.mp hu with rfl | hu
      · exact first
      · exact (first.trans next).trans (ih.starts u hu)
    · exact .cons (fun u hu => next.trans (ih.starts u hu)) ih.pairwise
    · intro e he
      obtain ⟨after, last⟩ := ih.fault e he
      refine ⟨(first.trans next).trans after, ?_⟩
      intro u hu
      rcases List.mem_cons.mp hu with rfl | hu
      · exact next.trans after
      · exact last u hu

theorem tokens_fault (s : Scanner) : ∀ e ∈ s.tokens.failure, Lexeme.IsLexical e.violation := by
  fun_induction tokens s with
  | case1 s e s' h =>
    intro e' he'
    cases he'
    exact (next_error h).2.2.1
  | case2 s t s' h last => simp
  | case3 s t s' h more later ih => exact ih

/-- Lexical errors end behind their starts. -/
theorem tokens_fault_ends (s : Scanner) :
    ∀ e ∈ s.tokens.failure, e.origin.start.offset ≤ e.origin.stop.offset := by
  fun_induction tokens s with
  | case1 s e s' h =>
    intro e' he'
    cases he'
    exact (next_error h).2.1
  | case2 s t s' h last => simp
  | case3 s t s' h more later ih => exact ih

/-- Lexical errors name no marks. -/
theorem tokens_unclosed (s : Scanner) : ∀ e ∈ s.tokens.failure, e.unclosed = [] := by
  fun_induction tokens s with
  | case1 s e s' h =>
    intro e' he'
    cases he'
    exact (next_error h).2.2.2
  | case2 s t s' h last => simp
  | case3 s t s' h more later ih => exact ih

end Scanner
end GraphQL
