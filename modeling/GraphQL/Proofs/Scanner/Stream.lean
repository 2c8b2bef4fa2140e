import GraphQL.Proofs.Extent
import GraphQL.Proofs.Scanner.Written
import GraphQL.Scanner

/-! The tokens of a source tile it: gaps and tokens as written make up the text in turn, and the
positions of each token are the places reached before and after it. -/
namespace GraphQL

/-- A text, from some place on, in gaps and tokens. What stands after the last token may be
anything, for a stream can be cut off. -/
inductive Tiled : Place → List Char → List Token → Prop where
  | cut (p : Place) (cs : List Char) : Tiled p cs []
  | token {p : Place} {gap rest : List Char} {k : TokenKind} {ts : List Token}
      (later : Tiled (p.pass (gap ++ k.written.toList)) rest ts) :
      Tiled p (gap ++ k.written.toList ++ rest)
        (⟨k, (p.pass gap).position, (p.pass (gap ++ k.written.toList)).position⟩ :: ts)

/-- In front of some text a token is read as it is written. -/
def TokenKind.ReadBefore (k : TokenKind) (rest : List Char) : Prop :=
  ∃ c cs, k.written.toList = c :: cs ∧ Lexeme.read c (cs ++ rest) = .token k (c :: cs) rest

namespace Scanner

/-- A step passes what is ignored and reads a token, or comes to the end of the text. -/
theorem next_parts {s s' : Scanner} {t : Token} (h : s.next = (.ok t, s')) :
    s'.source = s.source ∧ ∃ gap,
      Lexeme.splitIgnored false s.rest = (gap, t.kind.written.toList ++ s'.rest) ∧
      t.start = (s.place.pass gap).position ∧
      s'.place = s.place.pass (gap ++ t.kind.written.toList) ∧ t.stop = s'.place.position ∧
      (t.kind = .endOfInput ∧ s'.rest = [] ∨ t.kind.IsWord ∧ t.kind.ReadBefore s'.rest) := by
  unfold next at h
  simp only [skipIgnored_eq, moveOver] at h
  split at h
  · next nothing =>
    cases h
    have same : Lexeme.splitIgnored false s.rest = ((Lexeme.splitIgnored false s.rest).1, []) :=
      Prod.ext rfl nothing
    refine ⟨rfl, _, by simpa [TokenKind.written, nothing] using same, rfl, ?_, rfl,
      .inl ⟨rfl, nothing⟩⟩
    simp [TokenKind.written]
  · next c cs some_text =>
    simp only [Prod.mk.injEq] at h
    obtain ⟨located, rfl⟩ := h
    unfold locate at located
    dsimp only at located
    cases outcome : (Lexeme.read c cs).outcome with
    | error v => simp [outcome] at located
    | ok k =>
      simp only [outcome, Except.ok.injEq] at located
      subst located
      obtain ⟨word, before, taken⟩ := Lexeme.exact_read c cs k outcome
      have whole := Lexeme.whole_read c cs
      rw [Lexeme.whole, before, taken, List.nil_append] at whole
      refine ⟨rfl, _, Prod.ext rfl (some_text.trans whole.symm), ?_, ?_, rfl, .inr ⟨word, ?_⟩⟩
      · simp [before]
      · simp [before, taken]
      · obtain ⟨d, ds, chars⟩ := List.exists_cons_of_ne_nil
          (by simpa [before, taken] using Lexeme.taken_read_ne_nil c cs : k.written.toList ≠ [])
        rw [chars, List.cons_append, List.cons.injEq] at whole
        obtain ⟨rfl, whole⟩ := whole
        refine ⟨d, ds, chars, ?_⟩
        rw [whole, ← chars, ← taken]
        cases read : Lexeme.read d cs
        simp_all [Lexeme.token]

/-- A step passes a gap and a token; the end of the input is a token of no characters. -/
theorem next_ok {s s' : Scanner} {t : Token} (h : s.next = (.ok t, s')) :
    s'.source = s.source ∧ (t.kind.IsWord ∨ t.kind = .endOfInput) ∧
      ∃ gap, s.rest = gap ++ t.kind.written.toList ++ s'.rest ∧
        t.start = (s.place.pass gap).position ∧
        s'.place = s.place.pass (gap ++ t.kind.written.toList) ∧ t.stop = s'.place.position := by
  have whole := Lexeme.splitIgnored_append false s.rest
  obtain ⟨source, gap, split, start, place, stop, sort⟩ := next_parts h
  rw [split] at whole
  exact ⟨source, sort.symm.imp And.left And.left, gap, by rw [List.append_assoc, whole], start,
    place, stop⟩

theorem tokens_tiled (s : Scanner) : Tiled s.place s.rest s.tokens.tokens := by
  fun_induction tokens s with
  | case1 s e s' h => exact .cut _ _
  | case2 s t s' h last =>
    obtain ⟨-, -, gap, text, start, place, stop⟩ := next_ok h
    obtain ⟨kind, _, _⟩ := t
    subst start stop
    rw [text, place]
    exact .token (.cut _ _)
  | case3 s t s' h more later ih =>
    obtain ⟨-, -, gap, text, start, place, stop⟩ := next_ok h
    obtain ⟨kind, _, _⟩ := t
    subst start stop
    rw [place] at ih
    rw [text, place]
    exact .token ih

/-- A stream is a row of words. Unless it is cut off, the end of the input follows. -/
theorem tokens_words (s : Scanner) :
    ∃ ts, (∀ t ∈ ts, t.kind.IsWord) ∧
      (s.tokens.tokens = ts ∧ s.tokens.failure ≠ none ∨
        ∃ e, s.tokens = ⟨ts ++ [e], none⟩ ∧ e.kind = .endOfInput) := by
  fun_induction tokens s with
  | case1 s e s' h => exact ⟨[], by simp, .inl ⟨rfl, by simp⟩⟩
  | case2 s t s' h last => exact ⟨[], by simp, .inr ⟨t, rfl, last⟩⟩
  | case3 s t s' h more later ih =>
    obtain ⟨-, word, -⟩ := next_ok h
    obtain ⟨ts, words, ends⟩ := ih
    refine ⟨t :: ts, ?_, ?_⟩
    · intro u hu
      rcases List.mem_cons.mp hu with rfl | hu
      · exact word.resolve_right more
      · exact words u hu
    · rcases ends with ⟨all, cut⟩ | ⟨e, all, last⟩
      · exact .inl ⟨by simp [later, all], cut⟩
      · exact .inr ⟨e, by simp [later, all], last⟩

end Scanner

/-- All words of a source: it can be read to its end, and the end is what follows them. -/
structure Source.Words (s : Source) (ts : List Token) : Prop where
  words : ∀ t ∈ ts, t.kind.IsWord
  ended : ∃ e : Token, e.kind = .endOfInput ∧ s.tokens = ⟨ts ++ [e], none⟩

/-- Whatever stands before an end of the input is all there is. -/
theorem Source.Words.of_append {s : Source} {ts later : List Token} {e : Token}
    (tokens : s.tokens.tokens = ts ++ e :: later) (last : e.kind = .endOfInput) : s.Words ts := by
  obtain ⟨us, words, ends⟩ := (Scanner.start s).tokens_words
  have notWord : ¬ e.kind.IsWord := fun word => word.notEnd last
  rcases ends with ⟨all, -⟩ | ⟨e', all, last'⟩
  · refine absurd (words e ?_) notWord
    rw [← all]
    exact tokens ▸ List.mem_append_right _ List.mem_cons_self
  · have same : us ++ [e'] = ts ++ e :: later := by
      rw [← tokens, Source.tokens, all]
    rcases List.eq_nil_or_concat later with rfl | ⟨later, x, rfl⟩
    · obtain ⟨rfl, -⟩ := List.append_inj' same rfl
      exact ⟨words, e', last', all⟩
    · rw [List.concat_eq_append, ← List.cons_append, ← List.append_assoc] at same
      obtain ⟨rfl, -⟩ := List.append_inj' same rfl
      exact absurd (words e (by simp)) notWord

/-- The text of some tokens in a row, with what stands between them. -/
inductive Covers : List Token → List Char → Prop where
  | one (t : Token) : Covers [t] t.kind.written.toList
  | more {ts : List Token} {text : List Char} (t : Token) (gap : List Char)
      (rest : Covers ts text) : Covers (t :: ts) (t.kind.written.toList ++ gap ++ text)

namespace Covers

variable {ts : List Token} {text : List Char}

theorem ne_nil (h : Covers ts text) : ts ≠ [] := by cases h <;> simp

theorem single {t : Token} (h : Covers [t] text) : text = t.kind.written.toList := by
  cases h with
  | one => rfl
  | more _ gap rest => exact absurd rfl rest.ne_nil

/-- Nothing stands before the first token. -/
theorem prefix_head (h : Covers ts text) :
    ∀ t ∈ ts.head?, t.kind.written.toList <+: text := by
  cases h with
  | one t => simp
  | more t gap rest => simp

/-- Nothing stands after the last token. -/
theorem suffix_last (h : Covers ts text) :
    ∀ t ∈ ts.getLast?, t.kind.written.toList <:+ text := by
  induction h with
  | one t => simp
  | more t gap rest ih =>
    intro u hu
    rw [List.getLast?_cons_of_ne_nil rest.ne_nil] at hu
    exact (ih u hu).trans (List.suffix_append _ _)

end Covers

namespace Tiled

variable {p : Place} {cs : List Char} {before ts after : List Token}

/-- Tokens follow the place that the text starts at. -/
theorem offset_le (h : Tiled p cs ts) :
    ∀ t ∈ ts, p.position.offset ≤ t.start.offset ∧ t.start.offset ≤ t.stop.offset := by
  induction h with
  | cut => simp
  | @token p gap rest k ts later ih =>
    simp only [Place.pass_offset, Text.byteLength_append] at ih
    rw [List.forall_mem_cons]
    refine ⟨by simp, fun t ht => ?_⟩
    have := ih t ht
    omega

theorem drop (h : Tiled p cs (before ++ ts)) :
    ∃ passed rest, cs = passed ++ rest ∧ Tiled (p.pass passed) rest ts := by
  induction before generalizing p cs with
  | nil => exact ⟨[], cs, rfl, h⟩
  | cons t before ih =>
    cases h with
    | token later =>
      obtain ⟨passed, rest, rfl, tiled⟩ := ih later
      rw [← Place.pass_append] at tiled
      exact ⟨_, rest, (List.append_assoc _ _ _).symm, tiled⟩

/-- Some tokens in a row cover what stands between the start of the first and the end of the
last. -/
theorem covers (h : Tiled p cs (ts ++ after)) (ne : ts ≠ []) :
    ∃ gap text rest, cs = gap ++ text ++ rest ∧ Covers ts text ∧
      (∀ t ∈ ts.head?, t.start = (p.pass gap).position) ∧
      ∀ t ∈ ts.getLast?, t.stop = (p.pass (gap ++ text)).position := by
  induction ts generalizing p cs with
  | nil => exact absurd rfl ne
  | cons t ts ih =>
    cases h with
    | @token _ gap rest k _ later =>
      by_cases single : ts = []
      · subst single
        refine ⟨gap, k.written.toList, rest, rfl, .one ⟨k, _, _⟩, by simp, by simp⟩
      · obtain ⟨gap', text, rest, rfl, covers, -, stop⟩ := ih later single
        refine ⟨gap, k.written.toList ++ gap' ++ text, rest, by simp, .more _ gap' covers,
          by simp, ?_⟩
        intro u hu
        rw [List.getLast?_cons_of_ne_nil single] at hu
        simpa using stop u hu

/-- The origin from the first token of a row to the last has the text of the row. -/
theorem text_covering {s : Source} {o : Origin}
    (h : Tiled .first s.chars (before ++ ts ++ after)) (covering : Origin.covering s ts = some o) :
    Covers ts o.text.toList := by
  unfold Origin.covering at covering
  split at covering
  · next first last head tail =>
    cases covering
    have ne : ts ≠ [] := by
      rintro rfl
      simp at head
    rw [List.append_assoc] at h
    obtain ⟨passed, _, chars, tiled⟩ := h.drop
    obtain ⟨gap, text, rest, rfl, covers, start, stop⟩ := tiled.covers ne
    have offsets (cs : List Char) :
        ((Place.first.pass passed).pass cs).position.offset = Text.byteLength (passed ++ cs) := by
      simp [Place.first, Position.first]
    have cut := Text.slice_middle (passed ++ gap) text rest
    simp only [Origin.text, start first head, stop last tail, offsets, chars]
    simp only [← List.append_assoc, Text.byteLength_append] at cut ⊢
    rw [cut]
    simpa using covers
  · cases covering

/-- Nothing stands after the last token before its end. -/
theorem suffix_text {s : Source} {last : Token} (h : Tiled .first s.chars (ts ++ after))
    (tail : ts.getLast? = some last) :
    last.kind.written.toList <:+ (⟨s, .first, last.stop⟩ : Origin).text.toList := by
  have ne : ts ≠ [] := by
    rintro rfl
    simp at tail
  obtain ⟨gap, text, rest, chars, covers, -, stop⟩ := h.covers ne
  have cut := Text.slice_middle [] (gap ++ text) rest
  have all : (⟨s, .first, last.stop⟩ : Origin).text.toList = gap ++ text := by
    simp only [Origin.text, stop last tail, chars, Place.pass_offset]
    change String.toList (String.ofList ((Text.slice 0 (0 + Text.byteLength (gap ++ text))
      (gap ++ text ++ rest)).getD [])) = gap ++ text
    simp only [List.nil_append, Text.byteLength_nil] at cut
    simp only [cut, Option.getD_some, String.toList_ofList]
  rw [all]
  exact (covers.suffix_last last tail).trans (List.suffix_append _ _)

end Tiled

theorem Source.Words.tiled {s : Source} {ts : List Token} (h : s.Words ts) :
    ∃ e, Tiled .first s.chars (ts ++ [e]) := by
  obtain ⟨e, -, all⟩ := h.ended
  have tiled := (Scanner.start s).tokens_tiled
  rw [Source.tokens] at all
  rw [all] at tiled
  exact ⟨e, tiled⟩

end GraphQL
