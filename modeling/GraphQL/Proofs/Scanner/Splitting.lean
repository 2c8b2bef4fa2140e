import GraphQL.Proofs.Scanner.Positions
import GraphQL.Proofs.Scanner.Recognition
import GraphQL.Proofs.Scanner.Stream

/-! Scanning splits a text: a source is read to its end if and only if it splits into lexemes of the
lexical grammar, and then these are its tokens, each at its place. -/
namespace GraphQL
open Lexical

/-! ### What is ignored -/

namespace Lexeme

variable {c : Char} {cs gap rest : List Char}

theorem isIgnored_iff :
    isIgnored c = true ↔ c ∈ [' ', '\t', '\n', '\r', ',', '\uFEFF'] := by
  simp [isIgnored, or_assoc]

/-- Where a comment starts, it goes on to the end of its line. -/
theorem splitIgnored_hash (cs : List Char) :
    splitIgnored false ('#' :: cs) =
      ('#' :: (cs.takeWhile (!Text.isTerminator ·) ++
          (splitIgnored false (cs.dropWhile (!Text.isTerminator ·))).1),
        (splitIgnored false (cs.dropWhile (!Text.isTerminator ·))).2) := by
  simp [splitIgnored, isIgnored, splitIgnored_true]

/-- What is split off is ignored. -/
theorem ignored_splitIgnored (cs : List Char) :
    Ignored (splitIgnored false cs).1 (splitIgnored false cs).2 := by
  match cs with
  | [] => exact .nothing []
  | c :: cs =>
    by_cases listed : isIgnored c = true
    · have later := ignored_splitIgnored cs
      simpa [splitIgnored, listed] using Ignored.blank (isIgnored_iff.1 listed) later
    · by_cases hash : c = '#'
      · subst hash
        have later := ignored_splitIgnored (cs.dropWhile (!Text.isTerminator ·))
        rw [splitIgnored_hash]
        refine .comment (fun c hc => ?_) (fun c hc => ?_) later
        · simpa using List.mem_takeWhile_imp hc
        · rw [splitIgnored_append] at hc
          simpa using stops_dropWhile (!Text.isTerminator ·) cs c hc
      · have visible : splitIgnored false (c :: cs) = ([], c :: cs) := by
          simp [splitIgnored, listed, hash]
        rw [visible]
        exact .nothing _
termination_by cs.length
decreasing_by
  · simp
  · have := (List.dropWhile_suffix (!Text.isTerminator ·) (l := cs)).length_le
    simp only [List.length_cons]
    omega

/-- What is ignored is split off, if what follows is not ignored. -/
theorem splitIgnored_ignored (h : Ignored gap rest)
    (visible : ∀ c ∈ rest.head?, isIgnored c = false ∧ c ≠ '#') :
    splitIgnored false (gap ++ rest) = (gap, rest) := by
  induction h with
  | nothing rest =>
    cases rest with
    | nil => rfl
    | cons c rest =>
      obtain ⟨shown, no_comment⟩ := visible c rfl
      simp [splitIgnored, shown, no_comment]
  | blank listed later ih =>
    simp [splitIgnored, isIgnored_iff.2 listed, ih visible]
  | @comment line gap rest inside stops later ih =>
    have run : ∀ c ∈ line, (!Text.isTerminator c) = true := by simpa using inside
    have ended : ∀ c ∈ (gap ++ rest).head?, (!Text.isTerminator c) = false := by simpa using stops
    rw [List.cons_append, List.append_assoc, splitIgnored_hash, takeWhile_run run ended,
      dropWhile_run run ended, ih visible]

end Lexeme

/-! ### Scanning -/

/-- The tokens that the parts of a text are, from some place on. -/
def placed : Place → List (List Char × TokenKind) → List Token
  | _, [] => []
  | p, (gap, k) :: parts =>
    ⟨k, (p.pass gap).position, (p.pass (gap ++ k.written.toList)).position⟩ ::
      placed (p.pass (gap ++ k.written.toList)) parts

namespace Scanner

variable {s s' : Scanner} {t : Token} {gap rest : List Char} {k : TokenKind}
  {parts : List (List Char × TokenKind)}

/-- A lexeme is the next token, at its place. -/
theorem next_lexeme (ignored : Ignored gap (k.written.toList ++ rest))
    (lexeme : IsLexeme (fun c => Lexeme.isBarred c = false) k rest)
    (text : s.rest = gap ++ k.written.toList ++ rest) :
    s.next = (.ok ⟨k, (s.place.pass gap).position,
        (s.place.pass (gap ++ k.written.toList)).position⟩,
      s.moveOver (gap ++ k.written.toList) rest) := by
  obtain ⟨c, cs, chars, read⟩ := Lexeme.read_isLexeme lexeme
  have visible : ∀ x ∈ (k.written.toList ++ rest).head?, Lexeme.isIgnored x = false ∧ x ≠ '#' := by
    rw [chars]
    rintro x ⟨⟩
    exact Lexeme.not_ignored_of_read read
  have split := Lexeme.splitIgnored_ignored ignored visible
  rw [← List.append_assoc, ← text] at split
  simp only [next, skipIgnored_eq, split, moveOver, chars, List.cons_append, read, locate,
    Lexeme.token, List.nil_append, Place.pass_append, Place.pass_nil]

theorem next_ending (ignored : Ignored s.rest []) :
    s.next = (.ok ⟨.endOfInput, (s.place.pass s.rest).position, (s.place.pass s.rest).position⟩,
      s.moveOver s.rest []) := by
  have split := Lexeme.splitIgnored_ignored ignored (by simp)
  rw [List.append_nil] at split
  simp only [next, skipIgnored_eq, split, moveOver]

/-- A token that is next is a lexeme, if its escapes are allowed, or the end of the text. -/
theorem splits_next (h : s.next = (.ok t, s')) (escapes : EscapesAllowed t.kind) :
    t.kind = .endOfInput ∧ Ignored s.rest [] ∨
      ∃ gap, s.rest = gap ++ t.kind.written.toList ++ s'.rest ∧
        Ignored gap (t.kind.written.toList ++ s'.rest) ∧
        IsLexeme (fun c => Lexeme.isBarred c = false) t.kind s'.rest := by
  have whole := Lexeme.splitIgnored_append false s.rest
  have ignored := Lexeme.ignored_splitIgnored s.rest
  obtain ⟨-, gap, split, -, -, -, ⟨last, nothing⟩ | ⟨-, c, cs, chars, read⟩⟩ := next_parts h
  · rw [split, last, nothing] at whole ignored
    simp only [TokenKind.written, String.toList_empty, List.append_nil] at whole ignored
    exact .inl ⟨last, whole ▸ ignored⟩
  · rw [split] at whole ignored
    refine .inr ⟨gap, by rw [List.append_assoc, whole], ignored, ?_⟩
    have outcome : (Lexeme.read c (cs ++ s'.rest)).outcome = .ok t.kind := by rw [read]; rfl
    have lexeme := Lexeme.isLexeme_read outcome escapes
    rwa [read] at lexeme

open Text in
/-- What a scanner takes as a token is what its source has there. -/
theorem slice_next {source : Source} {n : Nat}
    (step : ((Scanner.start source).after n).next.1 = .ok t) :
    slice t.start.offset t.stop.offset source.chars = some t.kind.written.toList := by
  obtain ⟨before, chars, place⟩ := isIn_after source n
  obtain ⟨-, -, gap, text, start, place', stop⟩ := next_ok (Prod.ext step rfl)
  have cut := slice_middle (before ++ gap) t.kind.written.toList
    ((Scanner.start source).after n).next.2.rest
  have whole : before ++ gap ++ t.kind.written.toList ++
      ((Scanner.start source).after n).next.2.rest = source.chars := by
    rw [chars, text]
    simp
  rw [whole] at cut
  rw [start, stop, place', place]
  simpa [Place.first, Position.first, Nat.add_assoc] using cut

theorem tokens_more (h : s.next = (.ok t, s')) (more : t.kind ≠ .endOfInput) :
    s.tokens = ⟨t :: s'.tokens.tokens, s'.tokens.failure⟩ := by
  rw [tokens]
  split
  · next failed => rw [h] at failed; cases failed
  · next same =>
    rw [h] at same
    cases same
    rw [dif_neg more]

theorem tokens_last (h : s.next = (.ok t, s')) (last : t.kind = .endOfInput) :
    s.tokens = ⟨[t], none⟩ := by
  rw [tokens]
  split
  · next failed => rw [h] at failed; cases failed
  · next same =>
    rw [h] at same
    cases same
    rw [dif_pos last]

theorem tokens_cut_off {e : SyntaxError} (h : s.next = (.error e, s')) : s.tokens = ⟨[], some e⟩ := by
  rw [tokens]
  split
  · next failed =>
    rw [h] at failed
    cases failed
    rfl
  · next same =>
    rw [h] at same
    cases same

/-- The parts of a text are its tokens. -/
theorem tokens_of_splits {text : List Char}
    (h : Splits (fun c => Lexeme.isBarred c = false) text parts) (s : Scanner)
    (same : s.rest = text) : s.tokens = ⟨placed s.place parts, none⟩ := by
  induction h generalizing s with
  | @ending gap ignored =>
    rw [← same] at ignored
    rw [tokens_last (next_ending ignored) rfl]
    simp [placed, same, TokenKind.written]
  | lexeme ignored lexeme later ih =>
    rw [tokens_more (next_lexeme ignored lexeme same) lexeme.ne_end, ih _ rfl]
    rfl

/-- Where scanning does not fail, the text splits into parts. -/
theorem splits_of_tokens (s : Scanner) (complete : s.tokens.failure = none)
    (escapes : ∀ t ∈ s.tokens.tokens, EscapesAllowed t.kind) :
    ∃ parts, Splits (fun c => Lexeme.isBarred c = false) s.rest parts := by
  fun_induction tokens s with
  | case1 s e s' h => cases complete
  | case2 s t s' h last =>
    rcases splits_next h (escapes t (by simp)) with ⟨-, ignored⟩ | ⟨gap, text, ignored, lexeme⟩
    · exact ⟨_, .ending ignored⟩
    · exact absurd last lexeme.ne_end
  | case3 s t s' h more later ih =>
    rcases splits_next h (escapes t (by simp)) with ⟨last, -⟩ | ⟨gap, text, ignored, lexeme⟩
    · exact absurd last more
    · obtain ⟨parts, splits⟩ := ih complete fun u hu => escapes u (List.mem_cons_of_mem _ hu)
      exact ⟨_, by rw [text]; exact .lexeme ignored lexeme splits⟩

end Scanner

/-- A lexeme that makes up a whole text is its one token. -/
theorem Lexical.IsLexeme.tokens_alone {k : TokenKind} (name : String)
    (lexeme : IsLexeme (fun c => Lexeme.isBarred c = false) k []) :
    (⟨k.written, name⟩ : Source).tokens =
      ⟨[⟨k, .first, .ending k.written.toList⟩,
        ⟨.endOfInput, .ending k.written.toList, .ending k.written.toList⟩], none⟩ := by
  have splits := Splits.lexeme (.nothing _) lexeme (.ending (.nothing []))
  rw [List.nil_append, List.append_nil] at splits
  have read := Scanner.tokens_of_splits splits (.start ⟨k.written, name⟩) rfl
  have first : Place.first.position = Position.first := rfl
  have nothing : TokenKind.endOfInput.written.toList = [] := rfl
  rw [Source.tokens, read]
  simp [placed, Scanner.start, nothing, Place.pass_first, first]

/-! ### Spans -/

/-- What stands between tokens: before the first from some offset on, and before each other from the
end of the one before it. -/
def gapsBefore (text : List Char) : Nat → List Token → List (Option (List Char))
  | _, [] => []
  | offset, t :: ts => Text.slice offset t.start.offset text :: gapsBefore text t.stop.offset ts

namespace Lexical.Splits

variable {inBlock : Char → Prop} {text : List Char} {parts : List (List Char × TokenKind)}

theorem map_kind_placed (p : Place) (parts : List (List Char × TokenKind)) :
    (placed p parts).map (·.kind) = parts.map (·.2) := by
  induction parts generalizing p with
  | nil => rfl
  | cons part parts ih => rw [placed, List.map_cons, List.map_cons, ih]

/-- Tokens are placed from the place on that they are read from. -/
theorem offset_le_start (p : Place) (parts : List (List Char × TokenKind)) :
    ∀ t ∈ placed p parts, p.position.offset ≤ t.start.offset := by
  induction parts generalizing p with
  | nil => simp [placed]
  | cons part parts ih =>
    rw [placed, List.forall_mem_cons]
    refine ⟨by simp, fun t ht => ?_⟩
    have := ih _ t ht
    rw [Place.pass_offset] at this
    omega

theorem increasing (h : Splits (fun c => Lexeme.isBarred c = false) text parts) (p : Place) :
    (placed p parts).Pairwise fun t u =>
      t.start.offset < t.stop.offset ∧ t.stop.offset ≤ u.start.offset := by
  induction h generalizing p with
  | ending => simp [placed]
  | @lexeme gap rest kind parts ignored lexeme later ih =>
    rw [placed, List.pairwise_cons]
    refine ⟨fun u hu => ⟨?_, offset_le_start _ parts u hu⟩, ih _⟩
    obtain ⟨c, cs, chars, -⟩ := Lexeme.read_isLexeme lexeme
    have positive := c.utf8Size_pos
    simp only [Place.pass_offset, Text.byteLength_append, chars, Text.byteLength_cons]
    omega

/-- The slice of a token is what it is written as, and the slices between tokens are the gaps. -/
theorem slices (h : Splits inBlock text parts) (before : List Char) (p : Place)
    (offset : p.position.offset = Text.byteLength before) :
    (∀ t ∈ placed p parts, Text.slice t.start.offset t.stop.offset (before ++ text) =
        some t.kind.written.toList) ∧
      gapsBefore (before ++ text) p.position.offset (placed p parts) =
        parts.map fun (gap, _) => some gap := by
  induction h generalizing before p with
  | @ending gap ignored =>
    have span := Text.slice_middle (before ++ gap) [] []
    have between := Text.slice_middle before gap []
    simp only [List.append_nil, Text.byteLength_append, Text.byteLength_nil, Nat.add_zero]
      at span between
    simp [placed, gapsBefore, TokenKind.written, offset, span, between]
  | @lexeme gap rest kind parts ignored lexeme later ih =>
    obtain ⟨spans, gaps⟩ := ih (before ++ gap ++ kind.written.toList)
      (p.pass (gap ++ kind.written.toList)) (by simp [offset, Nat.add_assoc])
    have span := Text.slice_middle (before ++ gap) kind.written.toList rest
    have between := Text.slice_middle before gap (kind.written.toList ++ rest)
    simp only [List.append_assoc, Text.byteLength_append] at span between spans gaps ⊢
    refine ⟨?_, ?_⟩
    · rw [placed, List.forall_mem_cons]
      refine ⟨?_, spans⟩
      simpa [offset, Nat.add_assoc] using span
    · rw [placed, gapsBefore, List.map_cons, gaps]
      simp [offset, between]

theorem ends (h : Splits inBlock text parts) (p : Place) :
    ∃ words last, placed p parts = words ++ [last] ∧
      (∀ t ∈ words, t.kind ≠ .endOfInput ∧ EscapesAllowed t.kind) ∧ last.kind = .endOfInput ∧
      last.start = (p.pass text).position ∧ last.stop = (p.pass text).position := by
  induction h generalizing p with
  | @ending gap ignored => exact ⟨[], _, rfl, by simp, rfl, rfl, by simp [TokenKind.written]⟩
  | @lexeme gap rest kind parts ignored lexeme later ih =>
    obtain ⟨words, last, same, only, ending, start, stop⟩ := ih (p.pass (gap ++ kind.written.toList))
    rw [← Place.pass_append] at start stop
    refine ⟨_ :: words, last, by rw [placed, same]; rfl, ?_, ending, start, stop⟩
    rw [List.forall_mem_cons]
    exact ⟨⟨lexeme.ne_end, lexeme.escapesAllowed⟩, only⟩

end Lexical.Splits

/-- A source can be read to its end if and only if it splits into lexemes with what is ignored
between them; what is left open is whether a backslash in a string can stand right before a barred
character. The tokens are then these lexemes in order, with the end of the input as the only other
one and the last: each is written as the slice it spans, they follow each other, and what stands
between them is what is ignored. -/
theorem tokens_lexical (s : Source) :
    (s.tokens.failure = none ∧ (∀ t ∈ s.tokens.tokens, EscapesAllowed t.kind) ↔
      ∃ parts, Splits (fun c => Lexeme.isBarred c = false) s.chars parts) ∧
    ∀ parts, Splits (fun c => Lexeme.isBarred c = false) s.chars parts →
      (s.tokens.tokens.map fun t => t.kind) = (parts.map fun (_, kind) => kind) ∧
      (∀ t ∈ s.tokens.tokens,
        Text.slice t.start.offset t.stop.offset s.chars = some t.kind.written.toList) ∧
      (s.tokens.tokens.Pairwise fun t u =>
        t.start.offset < t.stop.offset ∧ t.stop.offset ≤ u.start.offset) ∧
      gapsBefore s.chars 0 s.tokens.tokens = (parts.map fun (gap, _) => some gap) ∧
      ∃ words last, s.tokens.tokens = words ++ [last] ∧ (∀ t ∈ words, t.kind ≠ .endOfInput) ∧
        last.kind = .endOfInput ∧ last.start = Position.after s.chars ∧
        last.stop = Position.after s.chars := by
  have all : ∀ parts, Splits (fun c => Lexeme.isBarred c = false) s.chars parts →
      s.tokens = ⟨placed .first parts, none⟩ := fun parts h =>
    Scanner.tokens_of_splits h (Scanner.start s) rfl
  refine ⟨⟨fun ⟨complete, escapes⟩ =>
    (Scanner.start s).splits_of_tokens complete escapes, fun ⟨parts, h⟩ => ?_⟩, fun parts h => ?_⟩
  · obtain ⟨words, last, same, only, ending, -⟩ := h.ends .first
    rw [all parts h, same]
    refine ⟨rfl, fun t ht => ?_⟩
    rcases List.mem_append.1 ht with ht | ht
    · exact (only t ht).2
    · rw [List.mem_singleton.1 ht, ending]
      trivial
  · obtain ⟨words, last, same, only, ending, start, stop⟩ := h.ends .first
    have slices := h.slices [] .first rfl
    rw [all parts h]
    exact ⟨Splits.map_kind_placed _ _, slices.1, h.increasing _, slices.2, words, last, same,
      fun t ht => (only t ht).1, ending, start, stop⟩

/-- A name, a comment, a number and a string, and what stands between them. -/
theorem tokens_lexical_field :
    let s : Source := ⟨"a # b\n, -1.5\"x\"", Source.defaultName⟩
    ∃ parts, Splits (fun c => Lexeme.isBarred c = false) s.chars parts ∧
      (parts.map fun (_, kind) => kind) =
        [.name "a", .float "-1.5", .string "\"x\"", .endOfInput] ∧
      gapsBefore s.chars 0 s.tokens.tokens = (parts.map fun (gap, _) => some gap) := by
  intro s
  have kinds : (s.tokens.tokens.map fun t => t.kind) =
      [.name "a", .float "-1.5", .string "\"x\"", .endOfInput] := by decide +kernel
  have complete : s.tokens.failure.isNone = true := by decide +kernel
  have escapes : ∀ k ∈ s.tokens.tokens.map fun t => t.kind, EscapesAllowed k := by
    rw [kinds]
    have plain : EscapesAllowed (.string "\"x\"") := fun c _ inside =>
      absurd (inside.subset List.mem_cons_self) (by decide)
    simpa [EscapesAllowed] using plain
  obtain ⟨parts, splits⟩ :=
    (tokens_lexical s).1.1 ⟨Option.isNone_iff_eq_none.1 complete, by simpa using escapes⟩
  obtain ⟨same, -, -, gaps, -⟩ := (tokens_lexical s).2 parts splits
  exact ⟨parts, splits, same ▸ kinds, gaps⟩

/-- Barred characters are refused in block strings, too, wherever these are closed. -/
theorem tokens_lexical_barred :
    let s : Source := ⟨"\"\"\"\x01\"\"\"", Source.defaultName⟩
    ¬ (s.tokens.failure = none ↔ ∃ parts, Splits (fun _ => True) s.chars parts) := by
  intro s complete_iff
  have chars : BlockChars (fun _ => True) ['\x01'] :=
    .plain trivial (by decide) (by decide) .nil
  have block : IsLexeme (fun _ => True) (.blockString s.content) [] := .blockString chars (by decide)
  have splits : Splits (fun _ => True) s.chars [([], .blockString s.content), ([], .endOfInput)] :=
    by simpa [Source.chars, TokenKind.written] using
      Splits.lexeme (.nothing _) block (.ending (.nothing []))
  have fails : s.tokens.failure.isSome = true := by decide +kernel
  rw [complete_iff.2 ⟨_, splits⟩] at fails
  cases fails

end GraphQL
