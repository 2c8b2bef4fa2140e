import GraphQL.Proofs.Scanner.Faults
import GraphQL.Proofs.Scanner.Slices

/-! Two texts that start alike, up to a space and go on differently behind it. Tokens and faults that
end before the space are the same in both. -/
namespace GraphQL

namespace Lexeme
open Text

variable {c : Char} {cs body mid tail : List Char}

/-- A lexeme that leaves another rest. -/
def leaving (l : Lexeme) (rest : List Char) : Lexeme := ⟨l.before, l.taken, rest, l.outcome⟩

/-- What a reader takes in front of a space does not depend on what comes after the space. -/
def Forks (p : List Char → Lexeme) : Prop := ∀ ⦃cs mid v⦄ (w : List Char),
  (p (cs ++ ' ' :: v)).rest = mid ++ ' ' :: v →
    p (cs ++ ' ' :: w) = (p (cs ++ ' ' :: v)).leaving (mid ++ ' ' :: w)

/-- The same is taken from two texts, and what is left of them starts with the same characters. -/
theorem leaving_of_same {p : List Char → Lexeme} {v w before taken later : List Char}
    {outcome : Except Violation TokenKind} (left : (p (cs ++ ' ' :: v)).rest = mid ++ ' ' :: v)
    (same : ∀ rest, p (cs ++ ' ' :: rest) = ⟨before, taken, later ++ ' ' :: rest, outcome⟩) :
    p (cs ++ ' ' :: w) = (p (cs ++ ' ' :: v)).leaving (mid ++ ' ' :: w) := by
  rw [same] at left
  obtain rfl : later = mid := List.append_cancel_right left
  rw [same, same]
  rfl

theorem forks_of_infront {p : List Char → Lexeme}
    (h : ∀ cs {rest}, Ended rest → p (cs ++ rest) = (p cs).infront rest) : Forks p :=
  fun cs _ _ _ left => leaving_of_same left fun rest => h cs (.space rest)

theorem forks_token (k : TokenKind) (taken : List Char) : Forks (token k taken) :=
  forks_of_infront fun _ _ _ => rfl

theorem forks_fault (v : Violation) (taken : List Char) : Forks (fault v taken) :=
  forks_of_infront fun _ _ _ => rfl

/-- A gap ends before the space, or takes it along. -/
theorem gap_fork (cs v : List Char) : ((cs ++ ' ' :: v).dropWhile isGap).length ≤ v.length ∨
    ∃ d ds, ∀ rest, (cs ++ rest).takeWhile isGap = cs.takeWhile isGap ∧
      (cs ++ rest).dropWhile isGap = d :: (ds ++ rest) := by
  induction cs with
  | nil =>
    refine .inl ?_
    rw [List.nil_append, List.dropWhile_cons_of_pos (by decide)]
    exact List.length_dropWhile_le isGap v
  | cons c cs ih =>
    by_cases gap : isGap c = true
    · simpa only [List.cons_append, List.dropWhile_cons_of_pos gap, List.takeWhile_cons_of_pos gap,
        List.cons.injEq, true_and] using ih
    · exact .inr ⟨c, cs, fun rest => by simp [gap]⟩

theorem dots_one (h : (cs.dropWhile isGap).head? ≠ some '.') :
    dots cs = fault (.dots .one) ('.' :: cs.takeWhile isGap) (cs.dropWhile isGap) := by
  unfold dots
  dsimp only
  split
  · next found =>
    rw [found] at h
    exact absurd rfl h
  · rfl

theorem dots_two (h : cs.dropWhile isGap = '.' :: tail)
    (h' : (tail.dropWhile isGap).head? ≠ some '.') :
    dots cs = fault (.dots (.two (cs.takeWhile isGap).isEmpty))
      ('.' :: (cs.takeWhile isGap ++ '.' :: tail.takeWhile isGap)) (tail.dropWhile isGap) := by
  unfold dots
  simp only [h]
  split
  · next found =>
    rw [found] at h'
    exact absurd rfl h'
  · rfl

theorem dots_three {rest : List Char} (h : cs.dropWhile isGap = '.' :: tail)
    (h' : tail.dropWhile isGap = '.' :: rest) :
    dots cs = ⟨[], '.' :: (cs.takeWhile isGap ++ '.' :: (tail.takeWhile isGap ++ ['.'])), rest,
      if (cs.takeWhile isGap).isEmpty && (tail.takeWhile isGap).isEmpty then .ok (.punctuator .ellipsis)
      else .error (.dots (.three (cs.takeWhile isGap).isEmpty (tail.takeWhile isGap).isEmpty))⟩ := by
  unfold dots
  simp only [h, h']
  split <;> rfl

/-- What dots leave is behind the gaps between them. -/
theorem length_rest_dots_two (h : cs.dropWhile isGap = '.' :: tail) :
    (dots cs).rest.length ≤ (tail.dropWhile isGap).length := by
  by_cases third : (tail.dropWhile isGap).head? = some '.'
  · obtain ⟨rest, h'⟩ := List.head?_eq_some_iff.mp third
    rw [dots_three h h', h']
    simp
  · rw [dots_two h third]
    exact le_rfl

theorem length_rest_dots (cs : List Char) :
    (dots cs).rest.length ≤ (cs.dropWhile isGap).length := by
  by_cases second : (cs.dropWhile isGap).head? = some '.'
  · obtain ⟨tail, h⟩ := List.head?_eq_some_iff.mp second
    have := length_rest_dots_two h
    have := List.length_dropWhile_le isGap tail
    rw [h, List.length_cons]
    omega
  · rw [dots_one second]
    exact le_rfl

/-- Each gap ends in front of the space, or what is left is behind the space. -/
theorem forks_dots : Forks dots := by
  intro cs mid v w left
  have long : v.length < (dots (cs ++ ' ' :: v)).rest.length := by
    rw [left, List.length_append, List.length_cons]
    omega
  rcases gap_fork cs v with short | ⟨d, ds, gap⟩
  · have := length_rest_dots (cs ++ ' ' :: v)
    omega
  by_cases dot : d = '.'
  · subst dot
    rcases gap_fork ds v with short | ⟨d', ds', gap'⟩
    · have : _ ≤ ((ds ++ ' ' :: v).dropWhile isGap).length := length_rest_dots_two (gap (' ' :: v)).2
      omega
    by_cases dot' : d' = '.'
    · subst dot'
      apply leaving_of_same left
      intro rest
      rw [dots_three (gap _).2 (gap' _).2, (gap _).1, (gap' _).1]
    · apply leaving_of_same left
      intro rest
      rw [dots_two (gap _).2 (by simp [gap', dot']), (gap _).1, (gap' _).1, (gap' _).2]
      exact congrArg (fault _ _) List.cons_append.symm
  · apply leaving_of_same left
    intro rest
    rw [dots_one (by simp [gap, dot]), (gap _).1, (gap _).2]
    exact congrArg (fault _ _) List.cons_append.symm

theorem stringBody_fork {d : Char} {v : List Char}
    (h : stringBody (cs ++ ' ' :: v) = (body, d :: (mid ++ ' ' :: v))) (w : List Char) :
    stringBody (cs ++ ' ' :: w) = (body, d :: (mid ++ ' ' :: w)) := by
  have whole := stringBody_append (cs ++ ' ' :: v)
  have parts : body ++ d :: mid ++ ' ' :: v = cs ++ ' ' :: v := by
    rw [← whole, h]
    simp
  obtain rfl := List.append_cancel_right parts
  simpa using stringBody_stops h (mid ++ ' ' :: w)

theorem blockBody_fork {stop v : List Char} (stops : StopsBlock stop)
    (h : blockBody (cs ++ ' ' :: v) = (body, stop ++ (mid ++ ' ' :: v))) (w : List Char) :
    blockBody (cs ++ ' ' :: w) = (body, stop ++ (mid ++ ' ' :: w)) := by
  have whole := blockBody_append (cs ++ ' ' :: v)
  have parts : body ++ stop ++ mid ++ ' ' :: v = cs ++ ' ' :: v := by
    rw [← whole, h]
    simp
  obtain rfl := List.append_cancel_right parts
  simpa using blockBody_stops h stops (mid ++ ' ' :: w)

/-- A string whose body stops at some character. -/
theorem string_stops {d : Char} (read : stringBody cs = (body, d :: tail)) : string cs =
    if d = '"' then
      token (.string (String.ofList ('"' :: body ++ ['"']))) ('"' :: body ++ ['"']) tail
    else if isTerminator d then fault (.openString true) ('"' :: body) (d :: tail)
    else ⟨'"' :: body, [d], tail, .error (.characterInString d)⟩ := by
  unfold string
  rw [read]
  dsimp only
  split
  · next none => cases none
  · next same =>
    obtain ⟨rfl, rfl⟩ := List.cons.inj same
    rw [if_pos rfl]
  · next no_quote same =>
    obtain ⟨rfl, rfl⟩ := List.cons.inj same
    rw [if_neg no_quote]

theorem forks_string : Forks string := by
  intro cs mid v w left
  cases read : stringBody (cs ++ ' ' :: v) with
  | mk body found =>
    cases found with
    | nil => simp [string, read, fault] at left
    | cons d tail =>
      rw [string_stops read] at left ⊢
      split_ifs at left with quote ends
      · obtain rfl : tail = mid ++ ' ' :: v := left
        rw [string_stops (stringBody_fork read w), if_pos quote, if_pos quote]
        rfl
      · -- the line ends before the space
        obtain ⟨mid, rfl⟩ : ∃ later, mid = d :: later := by
          cases mid with
          | nil =>
            rw [(List.cons.inj left).1] at ends
            cases ends
          | cons e later => exact ⟨later, by rw [(List.cons.inj left).1]⟩
        obtain rfl : tail = mid ++ ' ' :: v := (List.cons.inj left).2
        rw [string_stops (stringBody_fork read w), if_neg quote, if_neg quote, if_pos ends, if_pos ends]
        rfl
      · obtain rfl : tail = mid ++ ' ' :: v := left
        rw [string_stops (stringBody_fork read w), if_neg quote, if_neg quote, if_neg ends, if_neg ends]
        rfl

/-- A block string whose body stops at a character that may not stand in it. -/
theorem blockString_barred {d : Char} (read : blockBody cs = (body, d :: tail))
    (barred : isBarred d = true) : blockString cs =
      ⟨'"' :: '"' :: '"' :: body, [d], tail, .error (.characterInString d)⟩ := by
  unfold blockString
  rw [read]
  dsimp only
  split
  · next same =>
    rw [(List.cons.inj same).1] at barred
    cases barred
  · next none => cases none
  · next same =>
    obtain ⟨rfl, rfl⟩ := List.cons.inj same
    rfl

theorem forks_blockString : Forks blockString := by
  intro cs mid v w left
  have stops := stopsBlock_blockBody (cs ++ ' ' :: v)
  cases read : blockBody (cs ++ ' ' :: v) with
  | mk body found =>
    rw [read] at stops
    rcases stops with rfl | ⟨stop, tail, rfl | ⟨d, rfl, barred⟩, rfl⟩
    · simp [blockString, read, fault] at left
    · simp only [blockString, read] at left
      obtain rfl : tail = mid ++ ' ' :: v := left
      rw [blockString, blockBody_fork (.inl rfl) read w, blockString, read]
      rfl
    · rw [blockString_barred read barred] at left ⊢
      obtain rfl : tail = mid ++ ' ' :: v := left
      exact blockString_barred (blockBody_fork (.inr ⟨d, rfl, barred⟩) read w) barred

theorem forks_anyString : Forks anyString := by
  intro cs mid v w left
  by_cases quotes : ∃ later, cs = '"' :: '"' :: later
  · obtain ⟨cs, rfl⟩ := quotes
    exact forks_blockString w left
  · have plain (rest : List Char) : anyString (cs ++ ' ' :: rest) = string (cs ++ ' ' :: rest) := by
      unfold anyString
      split
      · next later same =>
        exfalso
        obtain _ | ⟨x, _ | ⟨y, cs⟩⟩ := cs
        · simp at same
        · simp at same
        · simp only [List.cons_append, List.cons.injEq] at same
          exact quotes ⟨cs, by rw [same.1, same.2.1]⟩
      · rfl
    rw [plain] at left ⊢
    rw [plain]
    exact forks_string w left

/-- What is read in front of a space does not depend on what comes after the space. -/
theorem forks_read (c : Char) : Forks (read c) := by
  intro cs mid v w left
  unfold read at left ⊢
  cases mark : mark? c with
  | some m => exact forks_token (.punctuator m) [c] w (by simpa only [mark] using left)
  | none =>
    simp only [mark] at left ⊢
    by_cases dot : (c == '.') = true
    · simp only [dot, if_true] at left ⊢
      exact forks_dots w left
    by_cases quote : (c == '"') = true
    · simp only [dot, quote, if_true] at left ⊢
      exact forks_anyString w left
    by_cases start : isNameStart c = true
    · simp only [dot, quote, start, if_true] at left ⊢
      exact forks_of_infront (fun cs _ ended => name_ended ended c cs) w left
    by_cases digit : (c == '-' || isDigit c) = true
    · simp only [dot, quote, start, digit, if_true] at left ⊢
      exact forks_of_infront (p := fun cs => number (c :: cs)) (fun cs _ ended => number_ended ended c cs)
        w left
    · simp only [dot, quote, start, digit] at left ⊢
      exact forks_fault _ _ w left

/-- What is ignored in front of something visible does not depend on what comes after that. -/
theorem splitIgnored_visible {inComment : Bool} (h : (splitIgnored inComment cs).2 = c :: tail)
    (rest : List Char) :
    splitIgnored inComment (cs ++ rest) = ((splitIgnored inComment cs).1, c :: (tail ++ rest)) := by
  fun_induction splitIgnored inComment cs with
  | case1 => cases h
  | case2 inComment d cs stays skipped left split ih =>
    simp only [List.cons_append, splitIgnored, stays, if_true, ih (by rw [split]; exact h), split]
  | case3 inComment d cs goes ignored skipped left split ih =>
    simp only [List.cons_append, splitIgnored, goes, ignored, if_true, ih (by rw [split]; exact h), split]
    rfl
  | case4 inComment d cs goes shown hash skipped left split ih =>
    simp only [List.cons_append, splitIgnored, goes, shown, hash, if_true, ih (by rw [split]; exact h),
      split]
    rfl
  | case5 inComment d cs goes shown no_hash =>
    obtain ⟨rfl, rfl⟩ := List.cons.inj h
    simp [splitIgnored, goes, shown, no_hash]

/-- A space behind what is ignored is ignored, too. -/
theorem splitIgnored_space {inComment : Bool} (h : (splitIgnored inComment cs).2 = []) (v : List Char) :
    ∃ gap, (splitIgnored inComment (cs ++ ' ' :: v)).1 = cs ++ ' ' :: gap := by
  fun_induction splitIgnored inComment cs with
  | case1 inComment =>
    cases inComment with
    | true => exact ⟨(splitIgnored true v).1, rfl⟩
    | false => exact ⟨(splitIgnored false v).1, rfl⟩
  | case2 inComment d cs stays skipped left split ih =>
    obtain ⟨gap, same⟩ := ih (by rw [split]; exact h)
    exact ⟨gap, by simp [splitIgnored, stays, same]⟩
  | case3 inComment d cs goes ignored skipped left split ih =>
    obtain ⟨gap, same⟩ := ih (by rw [split]; exact h)
    exact ⟨gap, by simp [splitIgnored, goes, ignored, same]⟩
  | case4 inComment d cs goes shown hash skipped left split ih =>
    obtain ⟨gap, same⟩ := ih (by rw [split]; exact h)
    exact ⟨gap, by simp [splitIgnored, goes, shown, hash, same]⟩
  | case5 => cases h

end Lexeme

/-- An error at the same place in another source. -/
def SyntaxError.movedTo (e : SyntaxError) (s : Source) : SyntaxError :=
  ⟨e.violation, ⟨s, e.origin.start, e.origin.stop⟩, e.unclosed⟩

namespace Scanner

variable {s s' s₁ : Scanner} {t : Token} {e : SyntaxError} {b : Nat} {ts : List Token}

/-- Two scanners at the same place, whose texts are the same up to a space behind so many bytes. -/
structure Forks (b : Nat) (s s' : Scanner) : Prop where
  place : s'.place = s.place
  texts : ∃ cs v w, s.rest = cs ++ ' ' :: v ∧ s'.rest = cs ++ ' ' :: w ∧
    s.place.position.offset + Text.byteLength cs = b

/-- A token or an error ends behind so many bytes. -/
def EndsBeyond (b : Nat) : Except SyntaxError Token → Prop
  | .ok t => b < t.stop.offset
  | .error e => b < e.origin.stop.offset

theorem locate_beyond {l : Lexeme}
    (far : b < s.place.position.offset + Text.byteLength (l.before ++ l.taken)) :
    EndsBeyond b (s.locate l) := by
  have stop : b < (s.place.pass (l.before ++ l.taken)).position.offset := by
    rw [Place.pass_offset]
    exact far
  unfold locate
  cases l.outcome <;> exact stop

/-- A step that comes to a lexeme. -/
theorem next_visible {gap tail : List Char} {c : Char}
    (split : Lexeme.splitIgnored false s.rest = (gap, c :: tail)) :
    s.next = ((s.moveOver gap (c :: tail)).locate (Lexeme.read c tail),
      (s.moveOver gap (c :: tail)).moveOver
        ((Lexeme.read c tail).before ++ (Lexeme.read c tail).taken) (Lexeme.read c tail).rest) := by
  unfold Scanner.next
  simp only [skipIgnored_eq, split]
  rfl

/-- A step with nothing to read in front of the space goes beyond it. -/
theorem next_beyond {cs v : List Char} (text : s.rest = cs ++ ' ' :: v)
    (left : (Lexeme.splitIgnored false cs).2 = []) :
    EndsBeyond (s.place.position.offset + Text.byteLength cs) s.next.1 := by
  obtain ⟨gap, ignored⟩ := Lexeme.splitIgnored_space left v
  have far : s.place.position.offset + Text.byteLength cs <
      (s.place.pass (cs ++ ' ' :: gap)).position.offset := by
    have : (' ' : Char).utf8Size = 1 := rfl
    simp only [Place.pass_offset, Text.byteLength_append, Text.byteLength_cons]
    omega
  unfold Scanner.next
  simp only [skipIgnored_eq, moveOver, text, ignored]
  split
  · exact far
  · exact locate_beyond (by simp only; omega)

/-- A lexeme that ends in front of the space is the same in both texts. -/
theorem forks_locate {c : Char} {tail v w : List Char} (place : s'.place = s.place)
    (fits : Text.byteLength ((Lexeme.read c (tail ++ ' ' :: v)).before ++
      (Lexeme.read c (tail ++ ' ' :: v)).taken) ≤ Text.byteLength (c :: tail)) :
    let l := Lexeme.read c (tail ++ ' ' :: v)
    let l' := Lexeme.read c (tail ++ ' ' :: w)
    Forks (s.place.position.offset + Text.byteLength (c :: tail))
        (s.moveOver (l.before ++ l.taken) l.rest) (s'.moveOver (l'.before ++ l'.taken) l'.rest) ∧
      s'.locate l' = (s.locate l).mapError (·.movedTo s'.source) ∧
      ∀ t, s.locate l = .ok t → t.kind ≠ .endOfInput := by
  intro l l'
  have whole := Lexeme.whole_read c (tail ++ ' ' :: v)
  rw [Lexeme.whole, ← List.cons_append] at whole
  -- `mid` is what the lexeme leaves of the shared text
  obtain ⟨mid, taken, rest⟩ := Text.append_of_byteLength_le whole.symm fits
  have same : l' = l.leaving (mid ++ ' ' :: w) := Lexeme.forks_read c w rest
  rw [same]
  refine ⟨⟨?_, mid, v, w, rest, rfl, ?_⟩, ?_, ?_⟩
  · simp only [moveOver, Lexeme.leaving, place]
  · simp only [moveOver, Place.pass_offset]
    rw [taken, Text.byteLength_append _ mid, Nat.add_assoc]
  · unfold locate
    simp only [Lexeme.leaving, place]
    cases l.outcome <;> rfl
  · intro t found
    simp only [locate] at found
    cases outcome : l.outcome with
    | error v => simp [outcome] at found
    | ok k =>
      obtain rfl : _ = t := by simpa [outcome] using found
      exact (Lexeme.exact_read _ _ k outcome).1.notEnd

/-- A step in front of the space is the same in both texts, or it goes beyond the space. -/
theorem Forks.next (h : Forks b s s') : EndsBeyond b s.next.1 ∨
    Forks b s.next.2 s'.next.2 ∧ s'.next.1 = s.next.1.mapError (·.movedTo s'.source) ∧
      ∀ t, s.next.1 = .ok t → t.kind ≠ .endOfInput := by
  obtain ⟨place, cs, v, w, text, text', bound⟩ := h
  cases left : (Lexeme.splitIgnored false cs).2 with
  | nil => exact .inl (bound ▸ next_beyond text left)
  | cons c tail =>
    have split := Lexeme.splitIgnored_visible left (' ' :: v)
    have split' := Lexeme.splitIgnored_visible left (' ' :: w)
    have parts := Lexeme.splitIgnored_append false cs
    generalize (Lexeme.splitIgnored false cs).1 = gap at split split' parts
    rw [left] at parts
    rw [← text] at split
    rw [← text'] at split'
    rw [next_visible split, next_visible split']
    have length : (s.moveOver gap (c :: (tail ++ ' ' :: v))).place.position.offset +
        Text.byteLength (c :: tail) = b := by
      rw [← bound, ← parts, Text.byteLength_append]
      simp only [moveOver, Place.pass_offset]
      omega
    by_cases fits : Text.byteLength ((Lexeme.read c (tail ++ ' ' :: v)).before ++
        (Lexeme.read c (tail ++ ' ' :: v)).taken) ≤ Text.byteLength (c :: tail)
    · rw [← length]
      exact .inr (forks_locate (by simp only [moveOver, place]) fits)
    · exact .inl (locate_beyond (by omega))

/-- Where a token that another step gives ends, that step goes on. -/
theorem stop_next (found : s.next = (.ok t, s₁)) : t.stop.offset = s₁.place.position.offset := by
  obtain ⟨-, -, gap, -, -, -, stop⟩ := next_ok found
  rw [stop]

/-- Tokens that end in front of the space are those of the other text, too. -/
theorem Forks.tokens (h : Forks b s s') (first : ts <+: s.tokens.tokens)
    (within : ∀ t ∈ ts.getLast?, t.stop.offset ≤ b) : ts <+: s'.tokens.tokens := by
  induction ts generalizing s s' with
  | nil => exact List.nil_prefix
  | cons t ts ih =>
    obtain ⟨later, all⟩ := first
    obtain ⟨s₁, found, rest⟩ := tokens_cons (List.cons_append ▸ all.symm)
    have stop : t.stop.offset ≤ b := by
      by_cases single : ts = []
      · exact within t (by simp [single])
      · -- the last token ends behind the first one
        have last := List.getLast?_eq_some_getLast single
        have mem : ts.getLast single ∈ s₁.tokens.tokens := by
          rcases rest with ⟨-, none⟩ | ⟨-, same⟩
          · exact absurd (List.append_eq_nil_iff.mp none).1 single
          · exact same ▸ List.mem_append_left _ (List.getLast_mem single)
        have after := s₁.tokens_tiled.offset_le _ mem
        have before := within (ts.getLast single) (by rw [List.getLast?_cons_of_ne_nil single, last]; rfl)
        rw [stop_next found]
        omega
    rcases h.next with beyond | ⟨forks, same, more⟩
    · rw [found] at beyond
      exact absurd beyond (by simp only [EndsBeyond]; omega)
    rw [found] at forks same more
    have not_end := more t rfl
    obtain ⟨-, rest⟩ := rest.resolve_left fun last => not_end last.1
    have found' : s'.next = (.ok t, s'.next.2) := Prod.ext same rfl
    rw [tokens_more found' not_end]
    refine List.cons_prefix_cons.mpr ⟨rfl, ih forks ⟨later, rest.symm⟩ fun u hu => within u ?_⟩
    cases ts with
    | nil => cases hu
    | cons v vs => rwa [List.getLast?_cons_cons]

/-- An error that ends in front of the space cuts the other text off, too, behind the same tokens. -/
theorem Forks.failure (h : Forks b s s') (cut : s.tokens.failure = some e)
    (within : e.origin.stop.offset ≤ b) :
    s'.tokens = ⟨s.tokens.tokens, some (e.movedTo s'.source)⟩ := by
  fun_induction Scanner.tokens s generalizing s' with
  | case1 s e' s₁ found =>
    cases cut
    rcases h.next with beyond | ⟨-, same, -⟩
    · rw [found] at beyond
      exact absurd beyond (by simp only [EndsBeyond]; omega)
    · rw [found] at same
      have found' : s'.next = (.error (e.movedTo s'.source), s'.next.2) := Prod.ext same rfl
      rw [Scanner.tokens]
      split
      · next again => rw [found'] at again; cases again; rfl
      · next again => rw [found'] at again; cases again
  | case2 s t s₁ found last => cases cut
  | case3 s t s₁ found more later =>
    rename_i ih
    rcases h.next with beyond | ⟨forks, same, -⟩
    · -- the error comes behind the token
      have start := ((tokens_ordered s₁).fault e cut).1
      have stop := tokens_fault_ends s₁ e cut
      rw [found] at beyond
      have far : b < t.stop.offset := beyond
      rw [stop_next found] at far
      omega
    · rw [found] at forks same
      have found' : s'.next = (.ok t, s'.next.2) := Prod.ext same rfl
      have source : s'.next.2.source = s'.source := (next_ok found').1
      rw [tokens_more found' more, ih forks cut, source]

end Scanner

/-- Two sources that are the same up to a space. -/
theorem Source.forks {s s' : Source} {u v w : String} (text : s.content = u ++ " " ++ v)
    (text' : s'.content = u ++ " " ++ w) :
    Scanner.Forks (Text.byteLength u.toList) (.start s) (.start s') := by
  refine ⟨rfl, u.toList, v.toList, w.toList, ?_, ?_, Nat.zero_add _⟩
  · simp [Scanner.start, Source.chars, text]
  · simp [Scanner.start, Source.chars, text']

end GraphQL
