import GraphQL.Proofs.Scanner.Splitting

/-! Tokens are read alike in different places: what follows a token matters only if the token could
go on with it, and what stands before it only as far as it is ignored. -/
namespace GraphQL
open Lexical

namespace Lexeme

variable {c : Char} {cs body rest rest' : List Char} {k : TokenKind}

/-- Characters between tokens, and the first one of a comment. -/
def Separates (c : Char) : Prop := c ∈ [' ', '\t', '\n', '\r', ',', '\uFEFF', '#']

/-- A text that starts as `rest` does, or with something between tokens, or not at all. -/
def StopsLike (rest rest' : List Char) : Prop := ∀ x ∈ rest'.head?, x ∈ rest.head? ∨ Separates x

theorem StopsLike.keeps {P : Char → Prop} (like : StopsLike rest rest')
    (free : ∀ x, Separates x → P x) (h : ∀ x ∈ rest.head?, P x) : ∀ x ∈ rest'.head?, P x :=
  fun x hx => (like x hx).elim (h x) (free x)

/-- No token goes on with what separates tokens. -/
theorem Separates.goes_on_nowhere (h : Separates c) :
    Text.isNameContinue c = false ∧ Text.isNameStart c = false ∧ Text.isDigit c = false ∧ c ≠ '.' ∧
      c ≠ '"' := by
  simp only [Separates, List.mem_cons, List.not_mem_nil, or_false] at h
  rcases h with rfl | rfl | rfl | rfl | rfl | rfl | rfl
  all_goals decide

/-- Whether a block string starts where a quoted literal stands does not depend on what separates
tokens. -/
theorem StopsLike.no_block {inner : List Char} (like : StopsLike rest rest')
    (h : ¬ tripleQuote <+: '"' :: (inner ++ '"' :: rest)) :
    ¬ tripleQuote <+: '"' :: (inner ++ '"' :: rest') := by
  intro block
  apply h
  cases inner with
  | nil =>
    -- After two quotes a third one would have to follow.
    obtain ⟨later, same⟩ := block
    simp only [tripleQuote, List.cons_append, List.nil_append, List.cons.injEq, true_and] at same
    rcases like '"' (by simp [← same]) with first | separates
    · obtain ⟨later, rfl⟩ := List.head?_eq_some_iff.1 first
      exact ⟨later, rfl⟩
    · exact absurd rfl separates.goes_on_nowhere.2.2.2.2
  | cons x inner =>
    have whole (rest : List Char) :
        '"' :: (x :: inner ++ '"' :: rest) = ('"' :: x :: (inner ++ ['"'])) ++ rest := by simp
    rw [whole] at block ⊢
    have short : tripleQuote.length ≤ ('"' :: x :: (inner ++ ['"'])).length := by
      simp [tripleQuote]
    exact (List.prefix_of_prefix_length_le block (List.prefix_append _ _) short).trans
      (List.prefix_append _ _)

theorem isLexeme_swap {inBlock : Char → Prop} (h : IsLexeme inBlock k rest)
    (like : StopsLike rest rest') : IsLexeme inBlock k rest' := by
  cases h with
  | punctuator mark => exact .punctuator mark rest'
  | name longest =>
    obtain ⟨word, stops⟩ := longest_name_iff.1 longest
    exact .name (longest_name_iff.2 ⟨word, like.keeps (fun x sep => sep.goes_on_nowhere.1) stops⟩)
  | int integer longest ends =>
    have ends' : EndsNumber rest' := like.keeps (fun x sep => by grind [sep.goes_on_nowhere]) ends
    exact .int integer (longest_number (.inl integer) ends') ends'
  | float float longest ends =>
    have ends' : EndsNumber rest' := like.keeps (fun x sep => by grind [sep.goes_on_nowhere]) ends
    exact .float float (longest_number (.inr float) ends') ends'
  | string chars quoted no_block =>
    refine .string chars quoted ?_
    rw [quoted, List.cons_append, List.append_assoc] at no_block ⊢
    exact like.no_block no_block
  | blockString chars quoted => exact .blockString chars quoted

/-- Escapes are at issue only in strings on one line. -/
theorem escapesAllowed_read (h : (read c cs).outcome = .ok k) :
    EscapesAllowed k ∨ c = '"' ∧ ¬ tripleQuote <+: '"' :: cs := by
  unfold read at h
  split at h
  · cases h
    exact .inl trivial
  · split at h
    · exact .inl (ellipsis_of_dots h ▸ trivial)
    · split at h
      · next quote =>
        by_cases block : tripleQuote <+: '"' :: cs
        · obtain ⟨cs, rfl⟩ : ∃ later, cs = '"' :: '"' :: later := by
            obtain ⟨later, same⟩ := block
            exact ⟨later, (List.cons.inj same).2.symm⟩
          simp only [anyString, blockString] at h
          split at h
          all_goals cases h
          exact .inl trivial
        · exact .inr ⟨by simpa using quote, block⟩
      · split at h
        · cases h
          exact .inl trivial
        · split at h
          · have lexeme : IsLexeme (fun _ => True) k (number (c :: cs)).rest := isLexeme_number h
            exact .inl lexeme.escapesAllowed
          · cases h

/-- A string on one line is read alike in front of any text that does not make it a block string. -/
theorem string_swap (h : string cs = token k ('"' :: body) rest)
    (no_block : ¬ tripleQuote <+: '"' :: cs) (like : StopsLike rest rest') :
    anyString (body ++ rest') = token k ('"' :: body) rest' := by
  have whole := stringBody_append cs
  unfold string at h
  cases read : stringBody cs with
  | mk inner last =>
    simp only [read] at h whole
    split at h
    · simp [token, fault] at h
    · next tail =>
      simp only [token, Lexeme.mk.injEq, List.cons.injEq, List.cons_append, true_and,
        Except.ok.injEq] at h
      obtain ⟨rfl, rfl, rfl⟩ := h
      have swapped : ¬ tripleQuote <+: '"' :: (inner ++ ['"'] ++ rest') := by
        rw [← whole] at no_block
        simpa using like.no_block no_block
      rw [anyString_of_no_block swapped]
      simp [string, stringBody_stops read]
    · split at h
      · simp [token, fault] at h
      · simp [token] at h

/-- What follows a token matters to how it is read only if it goes on with the token. -/
theorem read_swap (h : read c cs = token k (c :: body) rest) (like : StopsLike rest rest') :
    read c (body ++ rest') = token k (c :: body) rest' := by
  have outcome : (read c cs).outcome = .ok k := by rw [h]; rfl
  rcases escapesAllowed_read outcome with escapes | ⟨rfl, no_block⟩
  · have lexeme := isLexeme_read outcome escapes
    rw [h] at lexeme
    obtain ⟨d, ds, chars, reread⟩ := read_isLexeme (isLexeme_swap lexeme like)
    have written := (exact_read c cs k outcome).2.2
    rw [h, chars] at written
    obtain ⟨rfl, rfl⟩ := List.cons.inj written
    exact reread
  · have quoted (cs : List Char) : read '"' cs = anyString cs := rfl
    rw [quoted, anyString_of_no_block no_block] at h
    exact (quoted _).trans (string_swap h no_block like)

theorem isIgnored_of_isTerminator (h : Text.isTerminator c = true) : isIgnored c = true := by
  simp only [Text.isTerminator, Bool.or_eq_true, beq_iff_eq] at h
  rcases h with rfl | rfl
  all_goals rfl

end Lexeme

/-! ### What separates tokens -/

/-- Blanks, commas, byte order marks, and comments that are each closed by a line break. -/
inductive Lexical.Trivia : List Char → Prop
  | nil : Trivia []
  | blank {c : Char} {cs : List Char} (listed : c ∈ [' ', '\t', '\n', '\r', ',', '\uFEFF'])
      (later : Trivia cs) : Trivia (c :: cs)
  | comment {line cs : List Char} {c : Char} (inside : ∀ x ∈ line, Text.isTerminator x = false)
      (closes : Text.isTerminator c = true) (later : Trivia cs) : Trivia ('#' :: (line ++ c :: cs))

namespace Lexical.Trivia

variable {run cs rest : List Char} {c : Char}

theorem append (h : Trivia run) (h' : Trivia cs) : Trivia (run ++ cs) := by
  induction h with
  | nil => exact h'
  | blank listed later ih => exact .blank listed ih
  | comment inside closes later ih =>
    rw [List.cons_append, List.append_assoc, List.cons_append]
    exact .comment inside closes ih

/-- Tokens stop in front of it. -/
theorem stopsLike (h : Trivia run) (rest : List Char) : Lexeme.StopsLike rest (run ++ rest) := by
  intro x hx
  cases h with
  | nil => exact .inl hx
  | blank listed later =>
    cases hx
    exact .inr (List.mem_append_left ['#'] listed)
  | comment =>
    cases hx
    exact .inr (by simp [Lexeme.Separates])

/-- It is passed at once, wherever it stands. -/
theorem splitIgnored (h : Trivia run) (cs : List Char) :
    Lexeme.splitIgnored false (run ++ cs) =
      (run ++ (Lexeme.splitIgnored false cs).1, (Lexeme.splitIgnored false cs).2) := by
  induction h with
  | nil => rfl
  | @blank c run listed later ih =>
    have ignored : Lexeme.isIgnored c = true := Lexeme.isIgnored_iff.2 listed
    simp [Lexeme.splitIgnored, ignored, ih]
  | @comment line run c inside closes later ih =>
    have inside : ∀ x ∈ line, (!Text.isTerminator x) = true := by simpa using inside
    have stops : ∀ x ∈ (c :: (run ++ cs)).head?, (!Text.isTerminator x) = false := by
      simpa using closes
    have ignored := Lexeme.isIgnored_of_isTerminator closes
    rw [List.cons_append, List.append_assoc, List.cons_append, Lexeme.splitIgnored_hash,
      Lexeme.takeWhile_run inside stops, Lexeme.dropWhile_run inside stops]
    simp [Lexeme.splitIgnored, ignored, ih]

theorem nothing_left (h : Trivia run) : (Lexeme.splitIgnored false run).2 = [] := by
  have split := h.splitIgnored []
  rw [List.append_nil] at split
  rw [split]
  rfl

/-- What is ignored in front of a token is closed. -/
theorem of_ignored (h : Ignored run rest)
    (visible : ∃ c later, rest = c :: later ∧ Lexeme.isIgnored c = false) : Trivia run := by
  induction h with
  | nothing => exact .nil
  | blank listed later ih => exact .blank listed (ih visible)
  | @comment line gap rest inside stops later ih =>
    have closed := ih visible
    cases closed with
    | nil =>
      obtain ⟨c, later, rfl, shown⟩ := visible
      rw [Lexeme.isIgnored_of_isTerminator (stops c rfl)] at shown
      cases shown
    | blank _ closed => exact .comment inside (stops _ rfl) closed
    | comment => exact absurd (stops '#' rfl) (by decide)

end Lexical.Trivia

namespace Lexeme

open Lexical

/-- A comment that is still open takes what separates tokens up to the next line break. -/
theorem splitIgnored_open_trivia {run : List Char} (h : Trivia run) :
    (splitIgnored true run).2 = [] := by
  induction h with
  | nil => rfl
  | @blank c run listed later ih =>
    have ignored : isIgnored c = true := isIgnored_iff.2 listed
    by_cases closes : Text.isTerminator c = true
    · simpa [splitIgnored, closes, ignored] using later.nothing_left
    · simpa [splitIgnored, closes] using ih
  | @comment line run c inside closes later ih =>
    have inside : ∀ x ∈ '#' :: line, (!Text.isTerminator x) = true := by
      simpa using ⟨by decide, inside⟩
    have stops : ∀ x ∈ (c :: run).head?, (!Text.isTerminator x) = false := by simpa using closes
    rw [← List.cons_append, splitIgnored_true, dropWhile_run inside stops]
    simpa [splitIgnored, isIgnored_of_isTerminator closes] using later.nothing_left

/-- A text that is ignored up to its end, perhaps in a comment, can be followed by more of that. -/
theorem splitIgnored_then_trivia {run : List Char} (h : Trivia run) {inComment : Bool}
    {cs : List Char} (nothing : (splitIgnored inComment cs).2 = []) :
    (splitIgnored inComment (cs ++ run)).2 = [] := by
  fun_induction splitIgnored inComment cs with
  | case1 inComment =>
    cases inComment with
    | true => exact splitIgnored_open_trivia h
    | false => exact h.nothing_left
  | case2 inComment c cs stays skipped rest split ih =>
    simpa [splitIgnored, stays] using ih (by simpa [split] using nothing)
  | case3 inComment c cs goes ignored skipped rest split ih =>
    simpa [splitIgnored, goes, ignored] using ih (by simpa [split] using nothing)
  | case4 inComment c cs goes shown hash skipped rest split ih =>
    simpa [splitIgnored, goes, shown, hash] using ih (by simpa [split] using nothing)
  | case5 => cases nothing

end Lexeme

/-! ### Texts as tokens -/

namespace TokenKind.ReadBefore

variable {k : TokenKind} {rest rest' : List Char}

theorem swap (h : k.ReadBefore rest) (like : Lexeme.StopsLike rest rest') : k.ReadBefore rest' := by
  obtain ⟨c, cs, chars, read⟩ := h
  exact ⟨c, cs, chars, Lexeme.read_swap read like⟩

theorem written_ne_nil (h : k.ReadBefore rest) : k.written.toList ≠ [] := by
  obtain ⟨c, cs, chars, -⟩ := h
  simp [chars]

theorem byteLength_pos (h : k.ReadBefore rest) : 0 < Text.byteLength k.written.toList := by
  obtain ⟨c, cs, chars, -⟩ := h
  have := c.utf8Size_pos
  simp only [chars, Text.byteLength_cons]
  omega

theorem ne_end (h : k.ReadBefore rest) : k ≠ .endOfInput := by
  rintro rfl
  exact h.written_ne_nil rfl

/-- Nothing is ignored at the head of a token. -/
theorem splitIgnored (h : k.ReadBefore rest) :
    Lexeme.splitIgnored false (k.written.toList ++ rest) = ([], k.written.toList ++ rest) := by
  obtain ⟨c, cs, chars, read⟩ := h
  obtain ⟨visible, no_comment⟩ := Lexeme.not_ignored_of_read read
  simp [chars, Lexeme.splitIgnored, visible, no_comment]

end TokenKind.ReadBefore

namespace Scanner

variable {s s' : Scanner} {t : Token} {gap rest : List Char} {k : TokenKind}

theorem next_reads (trivia : Trivia gap) (reads : k.ReadBefore rest)
    (text : s.rest = gap ++ k.written.toList ++ rest) :
    ∃ t, s.next = (.ok t, s.moveOver (gap ++ k.written.toList) rest) ∧ t.kind = k := by
  have split := trivia.splitIgnored (k.written.toList ++ rest)
  rw [reads.splitIgnored, List.append_nil, ← List.append_assoc, ← text] at split
  obtain ⟨c, cs, chars, read⟩ := reads
  simp only [next, skipIgnored_eq, split, moveOver, chars, List.cons_append, read, locate,
    Lexeme.token, List.nil_append, Place.pass_append]
  exact ⟨_, rfl, rfl⟩

/-- The next token is the end of the text, or stands behind what separates it from those before. -/
theorem reads_next (h : s.next = (.ok t, s')) :
    t.kind = .endOfInput ∧ (Lexeme.splitIgnored false s.rest).2 = [] ∧
        t.start = (s.place.pass s.rest).position ∧ t.stop = (s.place.pass s.rest).position ∨
      ∃ gap, Trivia gap ∧ t.kind.ReadBefore s'.rest ∧
        s.rest = gap ++ t.kind.written.toList ++ s'.rest ∧ t.start = (s.place.pass gap).position ∧
        s'.place = s.place.pass (gap ++ t.kind.written.toList) ∧ t.stop = s'.place.position := by
  have whole := Lexeme.splitIgnored_append false s.rest
  have ignored := Lexeme.ignored_splitIgnored s.rest
  obtain ⟨-, gap, split, start, place, stop, ⟨last, nothing⟩ | ⟨-, reads⟩⟩ := next_parts h
  · have all : gap = s.rest := by simpa [split, last, nothing, TokenKind.written] using whole
    rw [place, last, all] at stop
    rw [all] at start
    exact .inl ⟨last, by simp [split, last, nothing, TokenKind.written], start,
      by simpa [TokenKind.written] using stop⟩
  · rw [split] at whole ignored
    refine .inr ⟨gap, .of_ignored ignored ?_, reads, ?_, start, place, stop⟩
    · obtain ⟨c, cs, chars, read⟩ := reads
      exact ⟨c, cs ++ s'.rest, by simp [chars], (Lexeme.not_ignored_of_read read).1⟩
    · rw [List.append_assoc, whole]

end Scanner

/-- A text is read to its end as tokens of these sorts. -/
inductive ReadsAs : List Char → List TokenKind → Prop
  | ending {cs : List Char} (nothing : (Lexeme.splitIgnored false cs).2 = []) :
    ReadsAs cs [.endOfInput]
  | token {gap rest : List Char} {k : TokenKind} {ks : List TokenKind} (trivia : Trivia gap)
    (reads : k.ReadBefore rest) (later : ReadsAs rest ks) :
    ReadsAs (gap ++ k.written.toList ++ rest) (k :: ks)

namespace ReadsAs

variable {text run pre post : List Char} {ks : List TokenKind}

/-- The text of a scanner is read as its tokens. -/
theorem tokens (h : ReadsAs text ks) (s : Scanner) (same : s.rest = text) :
    kinds s.tokens.tokens = ks ∧ s.tokens.failure = none := by
  induction h generalizing s with
  | @ending cs nothing =>
    obtain ⟨t, found, last⟩ := Scanner.next_end (s := s) (same ▸ nothing)
    have next : s.next = (.ok t, s.next.2) := Prod.ext found rfl
    rw [Scanner.tokens_last next last]
    simp [kinds, last]
  | @token gap rest k ks trivia reads later ih =>
    obtain ⟨t, found, kind⟩ := Scanner.next_reads trivia reads same
    obtain ⟨others, complete⟩ := ih (s.moveOver (gap ++ k.written.toList) rest) rfl
    rw [Scanner.tokens_more found (kind ▸ reads.ne_end)]
    exact ⟨by simpa [kinds, kind] using others, complete⟩

theorem of_tokens (s : Scanner) (complete : s.tokens.failure = none) :
    ReadsAs s.rest (kinds s.tokens.tokens) := by
  fun_induction Scanner.tokens s with
  | case1 s e s' h => cases complete
  | case2 s t s' h last =>
    rcases Scanner.reads_next h with ⟨-, nothing, -⟩ | ⟨gap, trivia, reads, text, -⟩
    · simpa [kinds, last] using ending nothing
    · exact absurd last reads.ne_end
  | case3 s t s' h more later ih =>
    rcases Scanner.reads_next h with ⟨last, -⟩ | ⟨gap, trivia, reads, text, -⟩
    · exact absurd last more
    · rw [text]
      exact .token trivia reads (ih complete)

/-- What separates tokens can stand in front of a text. -/
theorem behind (trivia : Trivia run) (h : ReadsAs text ks) : ReadsAs (run ++ text) ks := by
  cases h with
  | ending nothing =>
    refine .ending ?_
    rw [trivia.splitIgnored]
    exact nothing
  | token closed reads later =>
    rw [← List.append_assoc, ← List.append_assoc]
    exact .token (trivia.append closed) reads later

end ReadsAs

namespace Scanner

variable {s : Scanner} {t : Token} {run pre post : List Char}

/-- A token starts or stops after this number of bytes. -/
def IsBoundary (tokens : List Token) (offset : Nat) : Prop :=
  ∃ t ∈ tokens, offset = t.start.offset ∨ offset = t.stop.offset

theorem isBoundary_cons {tokens : List Token} {offset : Nat} :
    IsBoundary (t :: tokens) offset ↔
      offset = t.start.offset ∨ offset = t.stop.offset ∨ IsBoundary tokens offset := by
  simp [IsBoundary, or_assoc]

/-- No token starts or stops before the place that a scanner has reached. -/
theorem offset_le_boundary {offset : Nat} (h : IsBoundary s.tokens.tokens offset) :
    s.place.position.offset ≤ offset := by
  obtain ⟨t, ht, place⟩ := h
  have after := s.tokens_tiled.offset_le t ht
  omega

/-- A token that a text goes on after is read alike if what separates tokens is put in there. -/
theorem stopsLike_insert (trivia : Trivia run) (pre post : List Char) :
    Lexeme.StopsLike (pre ++ post) (pre ++ run ++ post) := by
  cases pre with
  | nil => exact trivia.stopsLike post
  | cons c pre => exact fun x hx => .inl hx

section Boundaries

variable {s' : Scanner} {gap word : List Char} {n : Nat}
  (place : s'.place = s.place.pass (gap ++ word)) (stop : t.stop = s'.place.position)
include place stop

/-- In front of the end of the next token, nothing but this token starts or stops, and it starts. -/
theorem boundary_in_front (start : t.start = (s.place.pass gap).position)
    (boundary : IsBoundary (t :: s'.tokens.tokens) (s.place.position.offset + n))
    (inside : n < Text.byteLength (gap ++ word)) : n = Text.byteLength gap := by
  rw [isBoundary_cons, start, stop, place, Place.pass_offset, Place.pass_offset] at boundary
  rcases boundary with at_start | at_stop | after
  · omega
  · omega
  · have later := offset_le_boundary after
    rw [place, Place.pass_offset] at later
    omega

/-- Behind the next token, the later ones start and stop. -/
theorem boundary_behind (start : t.start = (s.place.pass gap).position) (some_more : n ≠ 0)
    (boundary : IsBoundary (t :: s'.tokens.tokens)
      (s.place.position.offset + (Text.byteLength (gap ++ word) + n))) :
    IsBoundary s'.tokens.tokens (s'.place.position.offset + n) := by
  have reached : s'.place.position.offset =
      s.place.position.offset + Text.byteLength (gap ++ word) := by
    rw [place, Place.pass_offset]
  rw [isBoundary_cons, start, stop, Place.pass_offset, ← Nat.add_assoc, ← reached] at boundary
  rcases boundary with at_start | at_stop | after
  · rw [reached, Text.byteLength_append] at at_start
    omega
  · omega
  · exact after

end Boundaries

/-- What separates tokens can be inserted at either end of a text or of a token in it. -/
theorem readsAs_insert (s : Scanner) (trivia : Trivia run) (complete : s.tokens.failure = none)
    (text : s.rest = pre ++ post)
    (boundary : pre = [] ∨ post = [] ∨
      IsBoundary s.tokens.tokens (s.place.position.offset + Text.byteLength pre)) :
    ReadsAs (pre ++ run ++ post) (kinds s.tokens.tokens) := by
  rcases eq_or_ne pre [] with rfl | some_text
  · have reads := ReadsAs.of_tokens s complete
    rw [text] at reads
    exact reads.behind trivia
  replace boundary := boundary.resolve_left some_text
  fun_induction tokens s generalizing pre with
  | case1 s e s' h => cases complete
  | case2 s t s' h last =>
    rcases reads_next h with ⟨-, nothing, start, stop⟩ | ⟨gap, -, reads, -⟩
    · obtain rfl : post = [] := by
        rcases boundary with rfl | ⟨u, hu, offset⟩
        · rfl
        · rw [List.mem_singleton] at hu
          subst hu
          simp only [start, stop, or_self, Place.pass_offset] at offset
          exact (Text.append_inj_byteLength (text.symm.trans (List.append_nil _).symm)
            (by omega)).2
      simp only [List.append_nil] at text ⊢
      simpa [kinds, last] using
        ReadsAs.ending (Lexeme.splitIgnored_then_trivia trivia (text ▸ nothing))
    · exact absurd last reads.ne_end
  | case3 s t s' h more later =>
    rename_i ih
    rcases reads_next h with ⟨last, -⟩ | ⟨gap, closed, reads, chars, start, place, stop⟩
    · exact absurd last more
    have same : pre ++ post = (gap ++ t.kind.written.toList) ++ s'.rest := text.symm.trans chars
    by_cases inside : Text.byteLength pre < Text.byteLength (gap ++ t.kind.written.toList)
    · have gap_only : Text.byteLength pre = Text.byteLength gap := by
        refine boundary.elim (fun ended => ?_) (boundary_in_front place stop start · inside)
        have bytes := congrArg Text.byteLength same
        rw [ended, List.append_nil, Text.byteLength_append _ s'.rest] at bytes
        omega
      rw [List.append_assoc] at same
      obtain ⟨rfl, rfl⟩ := Text.append_inj_byteLength same gap_only
      rw [← List.append_assoc]
      exact .token (closed.append trivia) reads (.of_tokens s' complete)
    · obtain ⟨middle, rfl, rest⟩ := Text.append_of_byteLength_le same (by omega)
      have like := stopsLike_insert trivia middle post
      rw [← rest] at like
      rw [List.append_assoc, List.append_assoc, ← List.append_assoc middle]
      refine .token closed (reads.swap like) ?_
      rcases eq_or_ne middle [] with rfl | some_text
      · have reads := ReadsAs.of_tokens s' complete
        rw [rest] at reads
        exact reads.behind trivia
      · have some_more : Text.byteLength middle ≠ 0 := fun none =>
          some_text (Text.append_inj_byteLength (b := []) (d := middle) (by simp) none).1
        rw [Text.byteLength_append _ middle] at boundary
        exact ih complete rest some_text
          (boundary.imp_right (boundary_behind place stop start some_more))

end Scanner
end GraphQL
