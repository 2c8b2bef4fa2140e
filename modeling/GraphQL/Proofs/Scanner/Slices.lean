import GraphQL.Proofs.Scanner.Rereading

/-! The text of some tokens in a row is read as these tokens alone. -/
namespace GraphQL
open Lexical

namespace Scanner

variable {s : Scanner} {t : Token} {before ts after : List Token}

/-- The first token of a stream is the next one, and the others are what is left after it. -/
theorem tokens_cons (h : s.tokens.tokens = t :: ts) :
    ∃ s', s.next = (.ok t, s') ∧
      (t.kind = .endOfInput ∧ ts = [] ∨ t.kind ≠ .endOfInput ∧ s'.tokens.tokens = ts) := by
  rw [tokens] at h
  split at h
  · cases h
  · next t' s' found =>
    split at h
    · next last =>
      cases h
      exact ⟨s', found, .inl ⟨last, rfl⟩⟩
    · next more =>
      cases h
      exact ⟨s', found, .inr ⟨more, rfl⟩⟩

/-- Some way into a text are the tokens after the first ones. -/
theorem tokens_drop (h : s.tokens.tokens = before ++ ts) (ne : ts ≠ []) :
    ∃ (s' : Scanner) (passed : List Char), s'.tokens.tokens = ts ∧ s.rest = passed ++ s'.rest ∧
      s'.place = s.place.pass passed := by
  induction before generalizing s with
  | nil => exact ⟨s, [], h, rfl, rfl⟩
  | cons t before ih =>
    obtain ⟨s₁, found, ⟨-, last⟩ | ⟨-, later⟩⟩ := tokens_cons h
    · exact absurd (List.append_eq_nil_iff.mp last).2 ne
    · obtain ⟨-, -, gap, text, -, place, -⟩ := next_ok found
      obtain ⟨s', passed, tokens, rest, place'⟩ := ih later
      refine ⟨s', gap ++ t.kind.written.toList ++ passed, tokens, ?_, ?_⟩
      · rw [text, rest, ← List.append_assoc]
      · rw [place', place, ← Place.pass_append]

/-- Words at the head of a stream: their text, from the start of the first to the end of the last,
is read as these words. -/
theorem readsAs_words (h : s.tokens.tokens = ts ++ after) (ne : ts ≠ [])
    (words : ∀ t ∈ ts, t.kind ≠ .endOfInput) :
    ∃ gap text rest, s.rest = gap ++ text ++ rest ∧ Trivia gap ∧
      ReadsAs text (kinds ts ++ [.endOfInput]) ∧
      (∀ t ∈ ts.head?, t.start = (s.place.pass gap).position) ∧
      ∀ t ∈ ts.getLast?, t.stop = (s.place.pass (gap ++ text)).position := by
  induction ts generalizing s with
  | nil => exact absurd rfl ne
  | cons t ts ih =>
    rw [List.forall_mem_cons] at words
    obtain ⟨s', found, ⟨last, -⟩ | ⟨-, later⟩⟩ := tokens_cons h
    · exact absurd last words.1
    rcases reads_next found with ⟨last, -⟩ | ⟨gap, trivia, reads, text, start, place, stop⟩
    · exact absurd last words.1
    by_cases single : ts = []
    · subst single
      have alone : t.kind.ReadBefore [] := reads.swap (by simp [Lexeme.StopsLike])
      refine ⟨gap, t.kind.written.toList, s'.rest, text, trivia, ?_, by simpa using start, ?_⟩
      · simpa using ReadsAs.token .nil alone (.ending rfl)
      · simpa [place] using stop
    · obtain ⟨gap', text', rest, split, trivia', reads', -, stop'⟩ := ih later single words.2
      refine ⟨gap, t.kind.written.toList ++ (gap' ++ text'), rest, ?_, trivia, ?_, by simpa using start,
        ?_⟩
      · rw [text, split]
        simp
      · have like : Lexeme.StopsLike s'.rest (gap' ++ text') := by
          rw [split]
          cases gap' ++ text' with
          | nil => simp [Lexeme.StopsLike]
          | cons c cs => exact fun x hx => .inl hx
        exact ReadsAs.token .nil (reads.swap like) (reads'.behind trivia')
      · intro u hu
        rw [List.getLast?_cons_of_ne_nil single] at hu
        simpa [place] using stop' u hu

end Scanner

/-- The text that an origin covers is read as the tokens that it covers. -/
theorem Origin.readsAs_covering {s : Source} {before ts after : List Token} {o : Origin}
    (tokens : s.tokens.tokens = before ++ ts ++ after)
    (words : ∀ t ∈ ts, t.kind ≠ .endOfInput) (covering : Origin.covering s ts = some o) :
    ReadsAs o.text.toList (kinds ts ++ [.endOfInput]) := by
  unfold Origin.covering at covering
  split at covering
  · next first last head tail =>
    cases covering
    have ne : ts ≠ [] := by
      rintro rfl
      simp at head
    rw [List.append_assoc] at tokens
    obtain ⟨s', passed, tokens', chars, place⟩ :=
      Scanner.tokens_drop (s := .start s) tokens (by simp [ne])
    obtain ⟨gap, text, rest, split, -, reads, start, stop⟩ :=
      Scanner.readsAs_words tokens' ne words
    have offset : s'.place.position.offset = Text.byteLength passed := by
      simp [place, Scanner.start, Place.first, Position.first]
    have cut := Text.slice_middle (passed ++ gap) text rest
    have chars : s.chars = passed ++ gap ++ text ++ rest := by
      simpa [Scanner.start, split] using chars
    simp only [Text.byteLength_append, ← chars] at cut
    simp only [Origin.text, start first head, stop last tail, Place.pass_offset, offset,
      Text.byteLength_append, ← Nat.add_assoc, cut]
    simpa using reads
  · cases covering

end GraphQL
