import GraphQL.Proofs.Scanner.Written
import GraphQL.Scanner
import Mathlib.Data.List.TakeWhile

/-! Tokens with spaces between them are read one by one: what a reader takes from a text does not
depend on what comes after the space at the end of its token. -/
namespace GraphQL

/-- The written text of a token, read alone, is that token. -/
def TokenKind.Lexes (k : TokenKind) : Prop :=
  ∃ c cs, k.written.toList = c :: cs ∧ Lexeme.read c cs = .token k (c :: cs) []

namespace Lexeme

open Text

/-- Nothing follows, or a space does. -/
def Ended (rest : List Char) : Prop := ∀ c ∈ rest.head?, c = ' '

variable {c : Char} {cs rest tail body : List Char} {k : TokenKind}

theorem Ended.nil : Ended [] := by simp [Ended]

theorem Ended.space (rest : List Char) : Ended (' ' :: rest) := by simp [Ended]

theorem Ended.eq_nil_or_space (ended : Ended rest) : rest = [] ∨ ∃ later, rest = ' ' :: later := by
  cases rest with
  | nil => exact .inl rfl
  | cons c later => exact .inr ⟨later, by rw [ended c rfl]⟩

/-- A run of characters of a class without spaces stops at the same place. -/
theorem Ended.takeWhile {p : Char → Bool} (ended : Ended rest) (free : p ' ' = false)
    (cs : List Char) : (cs ++ rest).takeWhile p = cs.takeWhile p := by
  induction cs with
  | nil =>
    obtain rfl | ⟨later, rfl⟩ := ended.eq_nil_or_space
    · rfl
    · simp [free]
  | cons c cs ih => cases h : p c <;> simp [h, ih]

theorem Ended.dropWhile {p : Char → Bool} (ended : Ended rest) (free : p ' ' = false)
    (cs : List Char) : (cs ++ rest).dropWhile p = cs.dropWhile p ++ rest := by
  induction cs with
  | nil =>
    obtain rfl | ⟨later, rfl⟩ := ended.eq_nil_or_space
    · rfl
    · simp [free]
  | cons c cs ih => cases h : p c <;> simp [h, ih]

/-- A lexeme in front of more text. -/
def infront (l : Lexeme) (more : List Char) : Lexeme := { l with rest := l.rest ++ more }

theorem name_ended (ended : Ended rest) (c : Char) (cs : List Char) :
    name c (cs ++ rest) = (name c cs).infront rest := by
  rw [name, name, ended.takeWhile (by decide), ended.dropWhile (by decide)]
  rfl

theorem fraction_ended (ended : Ended rest) (cs : List Char) :
    fraction (cs ++ rest) = (fraction cs).map fun (places, later) => (places, later ++ rest) := by
  cases cs with
  | nil => obtain rfl | ⟨later, rfl⟩ := ended.eq_nil_or_space <;> rfl
  | cons c cs =>
    by_cases dot : c = '.'
    · subst dot
      simp only [fraction, List.cons_append, ended.takeWhile (by decide : isDigit ' ' = false),
        ended.dropWhile (by decide : isDigit ' ' = false)]
      cases cs.takeWhile isDigit <;> rfl
    · have bare (ds : List Char) : fraction (c :: ds) = .ok ([], c :: ds) := by
        unfold fraction
        split
        · next same => exact absurd (List.cons.inj same).1 dot
        · rfl
      rw [List.cons_append, bare, bare]
      rfl

theorem exponentSign_ended (ended : Ended rest) (cs : List Char) :
    exponentSign (cs ++ rest) = ((exponentSign cs).1, (exponentSign cs).2 ++ rest) := by
  cases cs with
  | nil =>
    obtain rfl | ⟨later, rfl⟩ := ended.eq_nil_or_space <;> rfl
  | cons c cs =>
    unfold exponentSign
    split
    · next same => cases same; rfl
    · next same => cases same; rfl
    · next no_plus no_minus =>
      split
      · next same => exact absurd (by cases same; rfl) (no_plus _)
      · next same => exact absurd (by cases same; rfl) (no_minus _)
      · rfl

theorem exponent_ended (ended : Ended rest) (cs : List Char) :
    exponent (cs ++ rest) = (exponent cs).map fun (power, later) => (power, later ++ rest) := by
  cases cs with
  | nil => obtain rfl | ⟨later, rfl⟩ := ended.eq_nil_or_space <;> rfl
  | cons c cs =>
    simp only [exponent, List.cons_append, exponentSign_ended ended,
      ended.takeWhile (by decide : isDigit ' ' = false),
      ended.dropWhile (by decide : isDigit ' ' = false)]
    split
    · cases (exponentSign cs).2.takeWhile isDigit <;> rfl
    · rfl

theorem numberTail_ended (ended : Ended rest) (cs : List Char) :
    numberTail (cs ++ rest) = (numberTail cs).map fun (tail, later) => (tail, later ++ rest) := by
  unfold numberTail
  rw [fraction_ended ended]
  rcases fraction cs with e | ⟨places, cs⟩
  · rfl
  · simp only [Except.map, bind, Except.bind]
    rw [exponent_ended ended]
    rcases exponent cs with e | ⟨power, cs⟩
    · rfl
    · simp only [Except.map]
      cases cs with
      | nil => obtain rfl | ⟨later, rfl⟩ := ended.eq_nil_or_space <;> rfl
      | cons c cs =>
        simp only [List.cons_append]
        split <;> rfl

theorem minusSign_append_cons (c : Char) (cs rest : List Char) :
    minusSign (c :: cs ++ rest) =
      ((minusSign (c :: cs)).1, (minusSign (c :: cs)).2 ++ rest) := by
  unfold minusSign
  split
  · next same => cases same; rfl
  · next no_minus =>
    split
    · next same => exact absurd (by cases same; rfl) (no_minus _)
    · rfl

theorem faultyNumber_ended (ended : Ended rest) (reason : NumberFault) (cs : List Char) :
    faultyNumber reason (cs ++ rest) = (faultyNumber reason cs).infront rest := by
  rw [faultyNumber, faultyNumber, ended.takeWhile (by decide), ended.dropWhile (by decide)]
  rfl

theorem number_ended (ended : Ended rest) (c : Char) (cs : List Char) :
    number (c :: cs ++ rest) = (number (c :: cs)).infront rest := by
  unfold number
  simp only [minusSign_append_cons, ended.takeWhile (by decide : isDigit ' ' = false),
    ended.dropWhile (by decide : isDigit ' ' = false), faultyNumber_ended ended,
    numberTail_ended ended]
  split
  · rfl
  · rfl
  · cases numberTail ((minusSign (c :: cs)).2.dropWhile isDigit) <;> rfl

/-- The body of a string stops at the same character, whatever comes after that. -/
theorem stringBody_stops {d : Char} (h : stringBody cs = (body, d :: tail)) (rest : List Char) :
    stringBody (body ++ d :: rest) = (body, d :: rest) := by
  fun_induction stringBody cs generalizing body with
  | case1 => cases h
  | case2 => cases h
  | case3 c cs terminator =>
    cases h
    simp [stringBody, terminator]
  | case4 c cs going body' rest' read ih =>
    cases h
    simp [stringBody, going, ih read]
  | case5 c cs no_end no_escape stops =>
    cases h
    have plain : d ≠ '\\' := by
      intro escape
      cases tail with
      | nil => exact no_end escape rfl
      | cons c cs => exact no_escape c cs escape rfl
    rw [List.nil_append, stringBody.eq_4 d _ (fun h _ => plain h) (fun _ _ h _ => plain h), if_pos stops]
  | case6 c cs no_end no_escape going body' rest' read ih =>
    cases h
    have plain : c ≠ '\\' := by
      intro escape
      cases cs with
      | nil => exact no_end escape rfl
      | cons d cs => exact no_escape d cs escape rfl
    rw [List.cons_append, stringBody.eq_4 c _ (fun h _ => plain h)
      (fun _ _ h _ => plain h), if_neg going, ih read]

/-- What the body of a block string can stop at. -/
def StopsBlock (stop : List Char) : Prop :=
  stop = ['"', '"', '"'] ∨ ∃ d, stop = [d] ∧ isBarred d = true

theorem stopsBlock_blockBody (cs : List Char) :
    (blockBody cs).2 = [] ∨ ∃ stop tail, StopsBlock stop ∧ (blockBody cs).2 = stop ++ tail := by
  fun_induction blockBody cs with
  | case1 cs body rest read ih => simpa [read] using ih
  | case2 cs => exact .inr ⟨['"', '"', '"'], cs, .inl rfl, rfl⟩
  | case3 c cs no_escape no_close barred => exact .inr ⟨[c], cs, .inr ⟨c, rfl, barred⟩, rfl⟩
  | case4 c cs no_escape no_close going body rest read ih => simpa [read] using ih
  | case5 => exact .inl rfl

/-- Quotes that would go on behind the body of a block string stand in it, or in what it stops at. -/
theorem StopsBlock.quotes {quotes stop rest : List Char} (h : StopsBlock stop)
    (alike : ∀ x ∈ quotes, x = '"') (few : quotes.length ≤ 3) (here : quotes <+: body ++ stop ++ rest)
    (tail : List Char) : quotes <+: body ++ stop ++ tail := by
  rcases h with rfl | ⟨d, rfl, barred⟩
  · exact (List.prefix_of_prefix_length_le here (List.prefix_append _ _) (by simp; omega)).trans
      (List.prefix_append _ _)
  · have short : quotes.length ≤ body.length := by
      by_contra long
      obtain ⟨later, same⟩ := here
      have at_stop := congrArg (·[body.length]?) same
      simp only [List.append_assoc, List.singleton_append] at at_stop
      rw [List.getElem?_append_left (by omega), List.getElem?_append_right le_rfl] at at_stop
      simp only [Nat.sub_self, List.getElem?_cons_zero] at at_stop
      rw [alike d (List.mem_of_getElem? at_stop)] at barred
      cases barred
    rw [List.append_assoc] at here ⊢
    exact (List.prefix_of_prefix_length_le here (List.prefix_append _ _) short).trans
      (List.prefix_append _ _)

/-- The body of a block string stops in front of the same, whatever comes after that. -/
theorem blockBody_stops {stop : List Char} (h : blockBody cs = (body, stop ++ tail))
    (stops : StopsBlock stop) (rest : List Char) :
    blockBody (body ++ stop ++ rest) = (body, stop ++ rest) := by
  generalize same : stop ++ tail = found at h
  fun_induction blockBody cs generalizing body with
  | case1 cs body' found' read ih =>
    cases h
    simp only [List.cons_append, blockBody, ih read]
  | case2 cs =>
    cases h
    rcases stops with rfl | ⟨d, rfl, barred⟩
    · simp [blockBody]
    · rw [(List.cons.inj same).1] at barred
      cases barred
  | case3 c cs no_escape no_close barred =>
    cases h
    rcases stops with rfl | ⟨d, rfl, -⟩
    · rw [← (List.cons.inj same).1] at barred
      cases barred
    · obtain ⟨rfl, -⟩ := List.cons.inj same
      have plain : d ≠ '\\' ∧ d ≠ '"' := by constructor <;> (rintro rfl; cases barred)
      rw [List.nil_append, List.singleton_append, blockBody.eq_3 d _ (fun _ h => absurd h plain.1)
        (fun _ h => absurd h plain.2), if_pos barred]
  | case4 c cs no_escape no_close going body' found' read ih =>
    cases h
    have text : body' ++ stop ++ tail = cs := by
      rw [List.append_assoc, same]
      simpa [read] using blockBody_append cs
    -- quotes behind `c` stand in the body or are the ones that it stops at
    have no_escape' : ∀ ds, c = '\\' → body' ++ stop ++ rest = '"' :: '"' :: '"' :: ds → False := by
      intro ds escape here
      have quotes : ['"', '"', '"'] <+: body' ++ stop ++ rest := ⟨ds, here.symm⟩
      obtain ⟨later, there⟩ := stops.quotes (by simp) (by simp) quotes tail
      exact no_escape later escape (text.symm.trans there.symm)
    have no_close' : ∀ ds, c = '"' → body' ++ stop ++ rest = '"' :: '"' :: ds → False := by
      intro ds quote here
      have quotes : ['"', '"'] <+: body' ++ stop ++ rest := ⟨ds, here.symm⟩
      obtain ⟨later, there⟩ := stops.quotes (by simp) (by simp) quotes tail
      exact no_close later quote (text.symm.trans there.symm)
    rw [List.cons_append, List.cons_append, blockBody.eq_3 c _ no_escape' no_close', if_neg going, ih read]
  | case5 =>
    cases h
    rcases stops with rfl | ⟨d, rfl, -⟩ <;> cases same

theorem string_closed (h : string cs = token k ('"' :: cs) []) (rest : List Char) :
    string (cs ++ rest) = token k ('"' :: cs) rest := by
  unfold string at h ⊢
  cases read : stringBody cs with
  | mk body last =>
    simp only [read] at h
    split at h
    · simp [token, fault] at h
    · next tail =>
      simp only [token, Lexeme.mk.injEq, true_and, Except.ok.injEq] at h
      obtain ⟨taken, rfl, kind⟩ := h
      have whole := stringBody_append cs
      rw [read] at whole
      have again : stringBody (cs ++ rest) = (body, '"' :: rest) := by
        rw [← whole, List.append_assoc]
        exact stringBody_stops read rest
      rw [again, ← kind, ← taken]
      rfl
    · split at h
      · simp [token, fault] at h
      · simp [token] at h

theorem blockString_closed (h : blockString cs = token k ('"' :: '"' :: '"' :: cs) [])
    (rest : List Char) : blockString (cs ++ rest) = token k ('"' :: '"' :: '"' :: cs) rest := by
  unfold blockString at h ⊢
  cases read : blockBody cs with
  | mk body last =>
    simp only [read] at h
    split at h
    · next tail =>
      simp only [token, Lexeme.mk.injEq, true_and, Except.ok.injEq] at h
      obtain ⟨taken, rfl, kind⟩ := h
      have whole := blockBody_append cs
      rw [read] at whole
      have again : blockBody (cs ++ rest) = (body, '"' :: '"' :: '"' :: rest) := by
        rw [← whole]
        have read' : blockBody cs = (body, ['"', '"', '"'] ++ []) := read
        exact blockBody_stops read' (.inl rfl) rest
      rw [again, ← kind, ← taken]
      rfl
    · simp [token, fault] at h
    · simp [token] at h

theorem anyString_ended (ended : Ended rest) (h : anyString cs = token k ('"' :: cs) []) :
    anyString (cs ++ rest) = token k ('"' :: cs) rest := by
  unfold anyString at h
  split at h
  · next cs => exact blockString_closed h rest
  · next no_block =>
    have string_rest := string_closed h rest
    unfold anyString
    split
    · next cs' same =>
      exfalso
      obtain _ | ⟨x, _ | ⟨y, later⟩⟩ := cs
      · simp [string, stringBody, token, fault] at h
      · obtain rfl | ⟨later, rfl⟩ := ended.eq_nil_or_space <;> simp at same
      · simp only [List.cons_append, List.cons.injEq] at same
        obtain ⟨rfl, rfl, -⟩ := same
        exact no_block later rfl
    · exact string_rest

/-- Dots are a token only if three of them stand together. -/
theorem dots_whole (h : dots cs = token k ('.' :: cs) []) :
    k = .punctuator .ellipsis ∧ cs = ['.', '.'] := by
  unfold dots at h
  dsimp only at h
  split at h
  · split at h
    · split at h
      · next together =>
        simp only [Bool.and_eq_true, List.isEmpty_iff] at together
        simp only [token, Lexeme.mk.injEq, true_and, Except.ok.injEq, together] at h
        obtain ⟨taken, -, kind⟩ := h
        simp only [List.nil_append, List.cons.injEq, true_and] at taken
        exact ⟨kind.symm, taken.symm⟩
      · simp [token, fault] at h
    · simp [token, fault] at h
  · simp [token, fault] at h

theorem dots_ended (h : dots cs = token k ('.' :: cs) []) (rest : List Char) :
    dots (cs ++ rest) = token k ('.' :: cs) rest := by
  obtain ⟨rfl, rfl⟩ := dots_whole h
  simp [dots, isGap]

theorem read_ended (ended : Ended rest) (h : read c cs = token k (c :: cs) []) :
    read c (cs ++ rest) = token k (c :: cs) rest := by
  unfold read at h ⊢
  split at h
  · next m hm =>
    simp only [token, Lexeme.mk.injEq, List.cons.injEq, true_and, Except.ok.injEq] at h
    obtain ⟨rfl, -, rfl⟩ := h
    rfl
  · split at h
    · next dot =>
      rw [if_pos dot]
      rw [beq_iff_eq] at dot
      subst dot
      exact dots_ended h rest
    · next no_dot =>
      rw [if_neg no_dot]
      split at h
      · next quote =>
        rw [if_pos quote]
        rw [beq_iff_eq] at quote
        subst quote
        exact anyString_ended ended h
      · next no_quote =>
        rw [if_neg no_quote]
        split at h
        · next start =>
          rw [if_pos start, name_ended ended, h]
          rfl
        · next no_start =>
          rw [if_neg no_start]
          split at h
          · next digit =>
            rw [if_pos digit, ← List.cons_append, number_ended ended, h]
            rfl
          · simp [token, fault] at h

/-- What is ignored between tokens starts none. -/
theorem not_ignored_of_read {taken : List Char} (h : read c cs = token k taken rest) :
    isIgnored c = false ∧ c ≠ '#' := by
  have faulty : ∀ x ∈ [' ', '\t', '\n', '\r', ',', '\uFEFF', '#'], ∀ cs,
      read x cs = fault (.character x) [x] cs := by
    intro x hx cs
    simp only [List.mem_cons, List.not_mem_nil, or_false] at hx
    rcases hx with rfl | rfl | rfl | rfl | rfl | rfl | rfl <;> rfl
  have unlisted : c ∉ [' ', '\t', '\n', '\r', ',', '\uFEFF', '#'] := by
    intro listed
    rw [faulty c listed cs] at h
    simp [token, fault] at h
  simp_all [isIgnored]

/-- A token stands at the head of a text as it is. -/
theorem splitIgnored_token (h : read c cs = token k (c :: cs) []) (rest : List Char) :
    splitIgnored false (c :: cs ++ rest) = ([], c :: cs ++ rest) := by
  obtain ⟨visible, no_comment⟩ := not_ignored_of_read h
  simp [splitIgnored, visible, no_comment]

end Lexeme

namespace TokenKind

variable {k : TokenKind}

theorem lexes_mark (m : Punctuator) : (punctuator m).Lexes := by
  cases m
  all_goals exact ⟨_, _, rfl, rfl⟩

theorem read_nameStart {c : Char} (start : Text.isNameStart c = true) (cs : List Char) :
    Lexeme.read c cs = Lexeme.name c cs := by
  have no_mark : Lexeme.mark? c = none := by
    unfold Lexeme.mark?
    split
    all_goals first | rfl | exact absurd start (by decide)
  have no_dot : ¬ (c == '.') = true := by
    intro dot
    exact absurd start (beq_iff_eq.mp dot ▸ by decide)
  have no_quote : ¬ (c == '"') = true := by
    intro quote
    exact absurd start (beq_iff_eq.mp quote ▸ by decide)
  rw [Lexeme.read, no_mark]
  simp only [if_neg no_dot, if_neg no_quote, if_pos start]

theorem lexes_name {text : String} (word : IsName text) : (name text).Lexes := by
  obtain ⟨c, cs, chars, start, continues⟩ := word
  have whole : String.ofList (c :: cs) = text := by rw [← chars, String.ofList_toList]
  refine ⟨c, cs, chars, ?_⟩
  rw [read_nameStart start, Lexeme.name]
  rw [List.takeWhile_eq_self_iff.mpr continues, List.dropWhile_eq_nil_iff.mpr continues, whole]

theorem Lexes.ne_end (h : k.Lexes) : k ≠ .endOfInput := by
  rintro rfl
  obtain ⟨c, cs, chars, -⟩ := h
  simp [written] at chars

end TokenKind

/-- The text of tokens with spaces between them. -/
def spaced (ks : List TokenKind) : String := " ".intercalate (ks.map (·.written))

variable {ks : List TokenKind}

theorem spaced_cons (k : TokenKind) (ks : List TokenKind) :
    (spaced (k :: ks)).toList =
      k.written.toList ++ (if ks = [] then [] else ' ' :: (spaced ks).toList) := by
  cases ks with
  | nil => simp [spaced]
  | cons k' ks => simp [spaced, String.toList_intercalate]

/-- Tokens start at once, or after the space before them. -/
theorem splitIgnored_spaced (lexes : ∀ k ∈ ks, k.Lexes) :
    (Lexeme.splitIgnored false (spaced ks).toList).2 = (spaced ks).toList := by
  cases ks with
  | nil => rfl
  | cons k ks =>
    obtain ⟨c, cs, chars, read⟩ := lexes k List.mem_cons_self
    rw [spaced_cons, chars, Lexeme.splitIgnored_token read]

namespace Scanner

theorem next_token {s : Scanner} {c : Char} {cs rest : List Char} {k : TokenKind}
    (text : (Lexeme.splitIgnored false s.rest).2 = c :: cs ++ rest)
    (read : Lexeme.read c cs = .token k (c :: cs) []) (ended : Lexeme.Ended rest) :
    (∃ t, s.next.1 = .ok t ∧ t.kind = k) ∧ s.next.2.rest = rest := by
  have token := Lexeme.read_ended ended read
  cases split : Lexeme.splitIgnored false s.rest with
  | mk ignored later =>
    rw [split, List.cons_append] at text
    subst text
    simp only [next, skipIgnored_eq, moveOver, split, token]
    exact ⟨⟨_, rfl, rfl⟩, rfl⟩

theorem next_end {s : Scanner} (text : (Lexeme.splitIgnored false s.rest).2 = []) :
    ∃ t, s.next.1 = .ok t ∧ t.kind = .endOfInput := by
  cases split : Lexeme.splitIgnored false s.rest with
  | mk ignored later =>
    rw [split] at text
    subst text
    simp only [next, skipIgnored_eq, moveOver, split]
    exact ⟨_, rfl, rfl⟩

/-- Tokens with spaces between them are read as these tokens. -/
theorem tokens_spaced {s : Scanner} (lexes : ∀ k ∈ ks, k.Lexes)
    (text : (Lexeme.splitIgnored false s.rest).2 = (spaced ks).toList) :
    s.tokens.tokens.map (·.kind) = ks ++ [.endOfInput] ∧ s.tokens.failure = none := by
  induction ks generalizing s with
  | nil =>
    obtain ⟨t, found, last⟩ := next_end text
    unfold tokens
    split
    · next failed => simp [failed] at found
    · next t' s' same =>
      rw [same] at found
      cases found
      simp [last]
  | cons k ks ih =>
    rw [List.forall_mem_cons] at lexes
    obtain ⟨c, cs, chars, read⟩ := lexes.1
    rw [spaced_cons, chars] at text
    have ended : Lexeme.Ended (if ks = [] then [] else ' ' :: (spaced ks).toList) := by
      split
      · exact .nil
      · exact .space _
    obtain ⟨⟨t, found, kind⟩, left⟩ := next_token text read ended
    have later : (Lexeme.splitIgnored false s.next.2.rest).2 = (spaced ks).toList := by
      rw [left]
      split
      · next none => rw [none]; rfl
      · next some => exact splitIgnored_spaced lexes.2
    have more : t.kind ≠ .endOfInput := kind ▸ lexes.1.ne_end
    unfold tokens
    split
    · next failed => simp [failed] at found
    · next t' s' same =>
      rw [same] at found later
      cases found
      obtain ⟨kinds, complete⟩ := ih lexes.2 later
      rw [dif_neg more]
      exact ⟨by simp [kind, kinds], complete⟩

end Scanner
end GraphQL
