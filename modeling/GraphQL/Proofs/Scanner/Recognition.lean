import GraphQL.Proofs.Scanner.Grammar
import GraphQL.Proofs.Scanner.Spaced

/-! Recognition: the readers read the lexemes of the lexical grammar, and nothing else. For every
sort of lexeme, a reader takes such a lexeme from the text that it stands at the head of; and what
the reader takes as a token is one. -/
namespace GraphQL.Lexeme
open Text Lexical

variable {c : Char} {cs rest tail body : List Char} {k : TokenKind}

/-! ### Runs of a class -/

theorem takeWhile_run {p : Char → Bool} (run : ∀ c ∈ cs, p c = true)
    (stops : ∀ c ∈ rest.head?, p c = false) : (cs ++ rest).takeWhile p = cs := by
  rw [List.takeWhile_append_of_pos run]
  cases rest with
  | nil => simp
  | cons c rest => simp [stops c rfl]

theorem dropWhile_run {p : Char → Bool} (run : ∀ c ∈ cs, p c = true)
    (stops : ∀ c ∈ rest.head?, p c = false) : (cs ++ rest).dropWhile p = rest := by
  rw [List.dropWhile_append_of_pos run]
  cases rest with
  | nil => rfl
  | cons c rest => simp [stops c rfl]

/-- After a run of a class comes something else. -/
theorem stops_dropWhile (p : Char → Bool) (cs : List Char) :
    ∀ c ∈ (cs.dropWhile p).head?, p c = false := by
  intro c hc
  have := List.head?_dropWhile_not p cs
  rw [Option.mem_def] at hc
  rw [hc] at this
  simpa using this

/-! ### Names -/

theorem isName_ofList : IsName (String.ofList cs) ↔
    ∃ c later, cs = c :: later ∧ isNameStart c = true ∧ ∀ x ∈ later, isNameContinue x = true := by
  simp [IsName]

/-- A longest name is a name that does not go on. -/
theorem longest_name_iff {text : String} :
    Longest (fun cs => IsName (String.ofList cs)) text.toList rest ↔
      IsName text ∧ ∀ c ∈ rest.head?, isNameContinue c = false := by
  constructor
  · rintro ⟨word, longest⟩
    rw [String.ofList_toList] at word
    refine ⟨word, fun c hc => ?_⟩
    cases rest with
    | nil => cases hc
    | cons c' later =>
      cases hc
      rw [← Bool.not_eq_true]
      intro continues
      obtain ⟨first, more, chars, start, run⟩ := word
      refine absurd (longest [c] later rfl (isName_ofList.2 ⟨first, more ++ [c], ?_, start, ?_⟩))
        (by simp)
      · simp [chars]
      · simpa [or_imp, forall_and] using ⟨run, continues⟩
  · rintro ⟨word, stops⟩
    refine ⟨by simpa using word, fun more later same longer => ?_⟩
    cases more with
    | nil => rfl
    | cons x more =>
      obtain ⟨first, cs, chars, -, -⟩ := word
      obtain ⟨first', cs', chars', -, run⟩ := isName_ofList.1 longer
      rw [chars, List.cons_append, List.cons.injEq] at chars'
      have continues := run x (chars'.2 ▸ by simp)
      rw [stops x (by simp [same])] at continues
      cases continues

theorem read_name {text : String}
    (h : Longest (fun cs => IsName (String.ofList cs)) text.toList rest) :
    ∃ c cs, text.toList = c :: cs ∧ read c (cs ++ rest) = token (.name text) (c :: cs) rest := by
  obtain ⟨⟨c, cs, chars, start, continues⟩, stops⟩ := longest_name_iff.1 h
  refine ⟨c, cs, chars, ?_⟩
  have whole : String.ofList (c :: cs) = text := by rw [← chars, String.ofList_toList]
  rw [TokenKind.read_nameStart start, name, takeWhile_run continues stops,
    dropWhile_run continues stops, whole]

theorem isLexeme_name {inBlock : Char → Prop} (start : isNameStart c = true)
    (h : (name c cs).outcome = .ok k) : IsLexeme inBlock k (name c cs).rest := by
  cases h
  refine .name (longest_name_iff.2 ⟨⟨c, cs.takeWhile isNameContinue, by simp, start, ?_⟩,
    stops_dropWhile isNameContinue cs⟩)
  intro x hx
  exact List.mem_takeWhile_imp hx

/-! ### Numbers -/

theorem fraction_exact {places : List Char} (h : IsFraction places)
    (stops : ∀ c ∈ tail.head?, c ≠ '.' ∧ isDigit c = false) :
    fraction (places ++ tail) = .ok (places, tail) := by
  cases h with
  | none =>
    rw [List.nil_append]
    unfold fraction
    split
    · exact absurd rfl (stops '.' rfl).1
    · rfl
  | some digits =>
    obtain ⟨ne, run⟩ := digits
    have digits_stop : ∀ c ∈ tail.head?, isDigit c = false := fun c hc => (stops c hc).2
    simp only [fraction, List.cons_append, takeWhile_run run digits_stop,
      dropWhile_run run digits_stop]

theorem exponentSign_exact {sign digits : List Char} (signs : sign ∈ [[], ['+'], ['-']])
    (power : IsDigits digits) (tail : List Char) :
    exponentSign (sign ++ digits ++ tail) = (sign, digits ++ tail) := by
  obtain ⟨ne, run⟩ := power
  obtain ⟨d, ds, rfl⟩ := List.exists_cons_of_ne_nil ne
  have digit := run d List.mem_cons_self
  simp only [List.mem_cons, List.not_mem_nil, or_false] at signs
  rcases signs with rfl | rfl | rfl
  · simp only [List.nil_append, List.cons_append]
    unfold exponentSign
    split
    · next same => cases same; cases digit
    · next same => cases same; cases digit
    · rfl
  · rfl
  · rfl

theorem exponent_exact {power : List Char} (h : IsExponent power)
    (stops : ∀ c ∈ tail.head?, isDigit c = false ∧ isNameStart c = false) :
    exponent (power ++ tail) = .ok (power, tail) := by
  cases h with
  | none =>
    cases tail with
    | nil => rfl
    | cons c tail =>
      have no_mark : ¬ (c == 'e' || c == 'E') = true := by
        intro mark
        simp only [Bool.or_eq_true, beq_iff_eq] at mark
        rcases mark with rfl | rfl
        · cases (stops _ rfl).2
        · cases (stops _ rfl).2
      simp only [List.nil_append, exponent, if_neg no_mark]
  | @some mark sign digits marks signs power =>
    have digits_stop : ∀ c ∈ tail.head?, isDigit c = false := fun c hc => (stops c hc).1
    have is_mark : (mark == 'e' || mark == 'E') = true := by simpa using marks
    simp only [List.cons_append, exponent, if_pos is_mark, exponentSign_exact signs power,
      takeWhile_run power.2 digits_stop, dropWhile_run power.2 digits_stop]
    split
    · exact absurd rfl power.1
    · rfl

/-- Neither fractions nor exponents start with a digit. -/
theorem tail_stops {places power : List Char} (fraction : IsFraction places)
    (exponent : IsExponent power) (ends : EndsNumber rest) :
    ∀ c ∈ (places ++ power ++ rest).head?, isDigit c = false := by
  cases fraction with
  | some => rintro c ⟨⟩; rfl
  | none =>
    cases exponent with
    | some marks =>
      rintro c ⟨⟩
      simp only [List.mem_cons, List.not_mem_nil, or_false] at marks
      rcases marks with rfl | rfl <;> rfl
    | none => exact fun c hc => (ends c hc).2.1

theorem numberTail_exact {places power : List Char} (fraction : IsFraction places)
    (exponent : IsExponent power) (ends : EndsNumber rest) :
    numberTail (places ++ power ++ rest) = .ok (places ++ power, rest) := by
  have places_stop : ∀ c ∈ (power ++ rest).head?, c ≠ '.' ∧ isDigit c = false := by
    cases exponent with
    | some marks =>
      rintro c ⟨⟩
      simp only [List.mem_cons, List.not_mem_nil, or_false] at marks
      rcases marks with rfl | rfl <;> exact ⟨by decide, rfl⟩
    | none => exact fun c hc => ⟨(ends c hc).1, (ends c hc).2.1⟩
  simp only [numberTail, List.append_assoc, fraction_exact fraction places_stop,
    exponent_exact exponent fun c hc => (ends c hc).2, bind, Except.bind]
  cases rest with
  | nil => rfl
  | cons c rest =>
    obtain ⟨no_dot, -, no_name⟩ := ends c rfl
    simp [no_dot, no_name, pure, Except.pure]

theorem minusSign_exact {sign digits : List Char} (signs : sign ∈ [[], ['-']])
    (whole : IsDigits digits) (tail : List Char) :
    minusSign (sign ++ digits ++ tail) = (sign, digits ++ tail) := by
  obtain ⟨ne, run⟩ := whole
  obtain ⟨d, ds, rfl⟩ := List.exists_cons_of_ne_nil ne
  have digit := run d List.mem_cons_self
  simp only [List.mem_cons, List.not_mem_nil, or_false] at signs
  rcases signs with rfl | rfl
  · simp only [List.nil_append, List.cons_append]
    unfold minusSign
    split
    · next same => cases same; cases digit
    · rfl
  · rfl

/-- The reader of numbers takes an integer, with a fraction and an exponent, from the text. -/
theorem number_exact {integer places power : List Char} (whole : IsInteger integer)
    (fraction : IsFraction places) (exponent : IsExponent power) (ends : EndsNumber rest) :
    number (integer ++ (places ++ power) ++ rest) =
      token (if (places ++ power).isEmpty then .int (String.ofList (integer ++ (places ++ power)))
        else .float (String.ofList (integer ++ (places ++ power))))
        (integer ++ (places ++ power)) rest := by
  obtain ⟨sign, digits, signs, whole, no_zero, rfl⟩ := whole
  have digits_stop := tail_stops fraction exponent ends
  have text : sign ++ digits ++ (places ++ power) ++ rest =
      sign ++ digits ++ (places ++ power ++ rest) := by simp
  unfold number
  rw [text, minusSign_exact signs whole]
  dsimp only
  rw [takeWhile_run whole.2 digits_stop, dropWhile_run whole.2 digits_stop]
  split
  · exact absurd rfl whole.1
  · next d ds => exact absurd (no_zero rfl) (by simp)
  · rw [numberTail_exact fraction exponent ends]

theorem number_of_isNumber {text : List Char} (h : IsNumber text) (ends : EndsNumber rest) :
    ∃ k, number (text ++ rest) = token k text rest := by
  rcases h with whole | ⟨integer, places, power, whole, fraction, exponent, -, rfl⟩
  · have read := number_exact whole .none .none ends
    rw [List.append_nil, List.append_nil] at read
    exact ⟨_, read⟩
  · rw [List.append_assoc integer]
    exact ⟨_, number_exact whole fraction exponent ends⟩

theorem isNameStart_of_isDigit (digit : isDigit c = true) : isNameStart c = false := by
  have range : 48 ≤ c.toNat ∧ c.toNat ≤ 57 := by
    simpa [isDigit, Char.le_def, UInt32.le_iff_toNat_le] using digit
  have no_underscore : c ≠ '_' := by
    rintro rfl
    cases digit
  simp only [isNameStart, isLetter, Char.le_def, UInt32.le_iff_toNat_le, Bool.or_eq_false_iff,
    beq_eq_false_iff_ne, Bool.and_eq_false_iff, decide_eq_false_iff_not]
  have small : ¬ 97 ≤ c.toNat := by omega
  have capital : ¬ 65 ≤ c.toNat := by omega
  exact ⟨no_underscore, .inl small, .inl capital⟩

theorem read_numberStart (h : c = '-' ∨ isDigit c = true) (cs : List Char) :
    read c cs = number (c :: cs) := by
  have no_mark : mark? c = none := by
    unfold mark?
    split
    all_goals first | rfl | exact absurd h (by decide)
  have no_dot : ¬ (c == '.') = true := by
    intro dot
    exact absurd h (beq_iff_eq.mp dot ▸ by decide)
  have no_quote : ¬ (c == '"') = true := by
    intro quote
    exact absurd h (beq_iff_eq.mp quote ▸ by decide)
  have no_name : ¬ isNameStart c = true := by
    rcases h with rfl | digit
    · decide
    · rw [isNameStart_of_isDigit digit]
      decide
  have digit : (c == '-' || isDigit c) = true := by simpa using h
  rw [read, no_mark]
  simp only [if_neg no_dot, if_neg no_quote, if_neg no_name, if_pos digit]

/-- A number that ends is a longest number: a longer one would be read otherwise. -/
theorem longest_number {text : List Char} (h : IsNumber text) (ends : EndsNumber rest) :
    Longest IsNumber text rest := by
  refine ⟨h, fun more later same longer => ?_⟩
  cases more with
  | nil => rfl
  | cons x more =>
    have ends_more : EndsNumber (x :: more) := fun c hc => ends c (by rw [same]; exact hc)
    have ends_nil : EndsNumber [] := by simp [EndsNumber]
    obtain ⟨k, read⟩ := number_of_isNumber h ends_more
    obtain ⟨k', read'⟩ := number_of_isNumber longer ends_nil
    rw [List.append_nil, read] at read'
    exact absurd (congrArg Lexeme.rest read') (by simp [token])

theorem fraction_sound {places : List Char} (h : fraction cs = .ok (places, tail))
    (stops : ∀ c ∈ cs.head?, isDigit c = false) :
    IsFraction places ∧ ∀ c ∈ tail.head?, isDigit c = false := by
  unfold fraction at h
  split at h
  · next cs =>
    split at h
    · cases h
    · next ne =>
      cases h
      exact ⟨.some ⟨ne, fun c hc => List.mem_takeWhile_imp hc⟩, stops_dropWhile isDigit cs⟩
  · cases h
    exact ⟨.none, stops⟩

theorem exponentSign_signs (cs : List Char) : (exponentSign cs).1 ∈ [[], ['+'], ['-']] := by
  unfold exponentSign
  split <;> simp

theorem exponent_sound {power : List Char} (h : exponent cs = .ok (power, tail))
    (stops : ∀ c ∈ cs.head?, isDigit c = false) :
    IsExponent power ∧ ∀ c ∈ tail.head?, isDigit c = false := by
  unfold exponent at h
  split at h
  · cases h
    exact ⟨.none, by simp⟩
  · next c cs =>
    split at h
    · next mark =>
      dsimp only at h
      split at h
      · cases h
      · next ne =>
        cases h
        have power : IsDigits ((exponentSign cs).2.takeWhile isDigit) :=
          ⟨ne, fun c hc => List.mem_takeWhile_imp hc⟩
        exact ⟨.some (by simpa using mark) (exponentSign_signs cs) power,
          stops_dropWhile isDigit _⟩
    · cases h
      exact ⟨.none, stops⟩

theorem numberTail_sound (h : numberTail cs = .ok (tail, rest))
    (stops : ∀ c ∈ cs.head?, isDigit c = false) :
    ∃ places power, IsFraction places ∧ IsExponent power ∧ tail = places ++ power ∧
      EndsNumber rest := by
  unfold numberTail at h
  cases places : fraction cs with
  | error e => simp [places, bind, Except.bind] at h
  | ok p =>
    obtain ⟨places', mid⟩ := p
    cases power : exponent mid with
    | error e => simp [places, power, bind, Except.bind] at h
    | ok q =>
      obtain ⟨power', last⟩ := q
      obtain ⟨is_fraction, mid_stops⟩ := fraction_sound places stops
      obtain ⟨is_exponent, last_stops⟩ := exponent_sound power mid_stops
      simp only [places, power, bind, Except.bind] at h
      refine ⟨places', power', is_fraction, is_exponent, ?_⟩
      cases last with
      | nil =>
        simp only [pure, Except.pure, Except.ok.injEq, Prod.mk.injEq] at h
        obtain ⟨rfl, rfl⟩ := h
        exact ⟨rfl, by simp [EndsNumber]⟩
      | cons c last =>
        dsimp only at h
        split at h
        · cases h
        · next fine =>
          simp only [pure, Except.pure, Except.ok.injEq, Prod.mk.injEq] at h
          obtain ⟨rfl, rfl⟩ := h
          simp only [Bool.or_eq_true, beq_iff_eq, not_or, Bool.not_eq_true] at fine
          refine ⟨rfl, ?_⟩
          rintro x ⟨⟩
          exact ⟨fine.1, last_stops c rfl, fine.2⟩

theorem minusSign_signs (cs : List Char) : (minusSign cs).1 ∈ [[], ['-']] := by
  unfold minusSign
  split <;> simp

/-- Where the reader of numbers finds a token, an integer stands, with a fraction and an exponent. -/
theorem number_sound (h : (number cs).outcome = .ok k) :
    ∃ integer places power rest, IsInteger integer ∧ IsFraction places ∧ IsExponent power ∧
      EndsNumber rest ∧ cs = integer ++ (places ++ power) ++ rest := by
  have signed := minusSign_append cs
  have digits := List.takeWhile_append_dropWhile (p := isDigit) (l := (minusSign cs).2)
  unfold number at h
  dsimp only at h
  split at h
  · cases h
  · cases h
  · next ne no_zero =>
    split at h
    · cases h
    · next tail rest read =>
      obtain ⟨places, power, fraction, exponent, rfl, ends⟩ :=
        numberTail_sound read (stops_dropWhile isDigit _)
      have no_leading : ((minusSign cs).2.takeWhile isDigit).head? = some '0' →
          (minusSign cs).2.takeWhile isDigit = ['0'] := by
        intro zero
        cases run : (minusSign cs).2.takeWhile isDigit with
        | nil => exact absurd run ne
        | cons d ds =>
          rw [run] at zero
          cases zero
          cases ds with
          | nil => rfl
          | cons e ds => exact (no_zero e ds run).elim
      have whole : IsInteger ((minusSign cs).1 ++ (minusSign cs).2.takeWhile isDigit) :=
        ⟨_, _, minusSign_signs cs, ⟨ne, fun c hc => List.mem_takeWhile_imp hc⟩, no_leading, rfl⟩
      refine ⟨_, places, power, rest, whole, fraction, exponent, ends, ?_⟩
      rw [← numberTail_append read] at digits
      rw [List.append_assoc, List.append_assoc, digits, signed]

theorem isLexeme_number {inBlock : Char → Prop} (h : (number cs).outcome = .ok k) :
    IsLexeme inBlock k (number cs).rest := by
  obtain ⟨integer, places, power, rest, whole, fraction, exponent, ends, rfl⟩ := number_sound h
  rw [number_exact whole fraction exponent ends] at h ⊢
  cases tail : places ++ power with
  | nil =>
    simp only [tail, token, List.isEmpty_nil, if_true, List.append_nil, Except.ok.injEq] at h
    subst h
    refine .int (by simpa using whole) ?_ ends
    rw [String.toList_ofList]
    exact longest_number (.inl whole) ends
  | cons x xs =>
    simp only [tail, token, List.isEmpty_cons, Bool.false_eq_true, if_false, Except.ok.injEq] at h
    subst h
    have float : IsFloat (integer ++ x :: xs) :=
      ⟨integer, places, power, whole, fraction, exponent, by simp [tail], by simp [← tail]⟩
    refine .float (by simpa using float) ?_ ends
    rw [String.toList_ofList]
    exact longest_number (.inr float) ends

/-! ### Strings -/

theorem stringBody_exact (h : StringChars body) (rest : List Char) :
    stringBody (body ++ '"' :: rest) = (body, '"' :: rest) := by
  induction h with
  | nil => simp [stringBody]
  | @plain c cs quote escape line allowed later ih =>
    have going : ¬ (c == '"' || isTerminator c || isBarred c) = true := by
      simp [quote, line, allowed]
    rw [List.cons_append, stringBody.eq_4 c _ (fun h _ => escape h) (fun _ _ h _ => escape h),
      if_neg going, ih]
  | @escaped c cs line allowed later ih =>
    simp only [List.cons_append, stringBody, line, ih, Bool.false_eq_true, if_false]

theorem stringBody_sound (h : stringBody cs = (body, '"' :: rest))
    (escapes : ∀ c, isBarred c = true → ¬ ['\\', c] <:+: body) : StringChars body := by
  fun_induction stringBody cs generalizing body with
  | case1 => cases h
  | case2 => cases h
  | case3 c cs terminator =>
    cases h
    simp [isTerminator] at terminator
  | case4 c cs going body' rest' read ih =>
    cases h
    refine .escaped (Bool.not_eq_true _ ▸ going) ?_ (ih read fun x barred inside => ?_)
    · rw [← Bool.not_eq_true]
      exact fun barred => escapes c barred ⟨[], body', rfl⟩
    · exact escapes x barred (inside.trans ⟨['\\', c], [], by simp⟩)
  | case5 c cs _ alone stops =>
    cases h
    exact .nil
  | case6 c cs no_end no_escape going body' rest' read ih =>
    cases h
    have plain : c ≠ '\\' := by
      intro escape
      cases cs with
      | nil => exact no_end escape rfl
      | cons d cs => exact no_escape d cs escape rfl
    simp only [Bool.or_eq_true, beq_iff_eq, not_or, Bool.not_eq_true] at going
    refine .plain going.1.1 plain going.1.2 going.2 (ih read fun x barred inside => ?_)
    exact escapes x barred (inside.trans ⟨[c], [], by simp⟩)

theorem blockBody_exact (h : BlockChars (fun c => isBarred c = false) body) (rest : List Char) :
    blockBody (body ++ tripleQuote ++ rest) = (body, tripleQuote ++ rest) := by
  have closed : blockBody (body ++ tripleQuote) = (body, tripleQuote ++ []) := by
    induction h with
    | nil => rfl
    | @escaped cs later ih => simp [tripleQuote, blockBody] at ih ⊢; simp [ih]
    | @plain c cs allowed opens escapes later ih =>
      have no_escape : ∀ cs', c = '\\' → cs ++ tripleQuote = '"' :: '"' :: '"' :: cs' → False := by
        rintro cs' rfl same
        exact escapes ⟨cs', by rw [same]; rfl⟩
      have no_close : ∀ cs', c = '"' → cs ++ tripleQuote = '"' :: '"' :: cs' → False := by
        rintro cs' rfl same
        exact opens ⟨cs', by rw [same]; rfl⟩
      rw [List.cons_append, blockBody.eq_3 c _ no_escape no_close, if_neg (by simp [allowed]), ih]
  exact blockBody_stops closed (.inl rfl) rest

theorem blockBody_sound (h : blockBody cs = (body, '"' :: '"' :: '"' :: rest)) :
    BlockChars (fun c => isBarred c = false) body := by
  fun_induction blockBody cs generalizing body with
  | case1 cs body' rest' read ih =>
    cases h
    exact .escaped (ih read)
  | case2 cs =>
    cases h
    exact .nil
  | case3 c cs _ closes barred =>
    cases h
    exact absurd rfl (closes _ rfl)
  | case4 c cs no_escape no_close going body' rest' read ih =>
    cases h
    have whole := blockBody_append cs
    rw [read] at whole
    have text : cs = body' ++ tripleQuote ++ rest := by simp [← whole, tripleQuote]
    refine .plain (Bool.not_eq_true _ ▸ going) ?_ ?_ (ih read)
    · rintro ⟨later, same⟩
      obtain ⟨quote, quotes⟩ := List.cons.inj same
      exact no_close (later ++ rest) quote.symm (by rw [text, ← quotes]; rfl)
    · rintro ⟨later, same⟩
      obtain ⟨escape, quotes⟩ := List.cons.inj same
      exact no_escape (later ++ rest) escape.symm (by rw [text, ← quotes]; rfl)
  | case5 => cases h

theorem string_exact (chars : StringChars body) (rest : List Char) :
    string (body ++ '"' :: rest) =
      token (.string (String.ofList ('"' :: (body ++ ['"'])))) ('"' :: (body ++ ['"'])) rest := by
  simp [string, stringBody_exact chars]

theorem blockString_exact (chars : BlockChars (fun c => isBarred c = false) body)
    (rest : List Char) :
    blockString (body ++ tripleQuote ++ rest) =
      token (.blockString (String.ofList (tripleQuote ++ body ++ tripleQuote)))
        (tripleQuote ++ body ++ tripleQuote) rest := by
  have read := blockBody_exact chars rest
  simp only [tripleQuote, List.append_assoc, List.cons_append, List.nil_append] at read
  simp [blockString, read, tripleQuote]

/-- A string on one line is read as one where no block string starts. -/
theorem anyString_of_no_block (h : ¬ tripleQuote <+: '"' :: cs) : anyString cs = string cs := by
  unfold anyString
  split
  · next later => exact absurd ⟨later, rfl⟩ h
  · rfl

theorem isLexeme_anyString (h : (anyString cs).outcome = .ok k) (escapes : EscapesAllowed k) :
    IsLexeme (fun c => isBarred c = false) k (anyString cs).rest := by
  by_cases block : tripleQuote <+: '"' :: cs
  · obtain ⟨cs, rfl⟩ : ∃ later, cs = '"' :: '"' :: later := by
      obtain ⟨later, same⟩ := block
      exact ⟨later, (List.cons.inj same).2.symm⟩
    simp only [anyString, blockString] at h ⊢
    cases read : blockBody cs with
    | mk body last =>
      simp only [read] at h ⊢
      split at h
      · next rest =>
        cases h
        exact .blockString (blockBody_sound read) (by simp [tripleQuote])
      · cases h
      · cases h
  · rw [anyString_of_no_block block] at h ⊢
    have whole := stringBody_append cs
    unfold string at h ⊢
    cases read : stringBody cs with
    | mk body last =>
      simp only [read] at h whole ⊢
      split at h
      · cases h
      · next rest =>
        cases h
        have chars : StringChars body := stringBody_sound read fun c barred inside =>
          escapes c barred (inside.trans ⟨['"'], ['"'], by simp⟩)
        refine .string chars (by simp) ?_
        simpa [← whole, token] using block
      · split at h
        · cases h
        · cases h

/-! ### All lexemes -/

theorem ellipsis_of_dots (h : (dots cs).outcome = .ok k) :
    k = .punctuator .ellipsis := by
  unfold dots at h
  dsimp only at h
  split at h
  · split at h
    · split at h <;> cases h
      rfl
    · cases h
  · cases h

/-- A lexeme is read where it stands. -/
theorem read_isLexeme (h : IsLexeme (fun c => isBarred c = false) k rest) :
    ∃ c cs, k.written.toList = c :: cs ∧ read c (cs ++ rest) = token k (c :: cs) rest := by
  cases h with
  | punctuator mark =>
    cases mark
    all_goals exact ⟨_, _, rfl, rfl⟩
  | name longest => exact read_name longest
  | @int literal rest integer longest ends =>
    obtain ⟨c, cs, chars, start⟩ := integer.start
    have read := number_exact integer .none .none ends
    refine ⟨c, cs, chars, ?_⟩
    rw [read_numberStart start, ← List.cons_append, ← chars]
    simpa using read
  | @float literal rest float longest ends =>
    obtain ⟨integer, places, power, whole, fraction, exponent, ne, chars⟩ := float
    obtain ⟨c, cs, rfl, start⟩ := whole.start
    have text : literal.toList = c :: (cs ++ (places ++ power)) := by simpa using chars
    have same : String.ofList (c :: (cs ++ (places ++ power))) = literal := by
      rw [← text, String.ofList_toList]
    have read := number_exact whole fraction exponent ends
    have not_int : ¬ (places ++ power).isEmpty = true := by simpa using ne
    rw [if_neg not_int, List.cons_append, List.cons_append, same] at read
    exact ⟨c, _, text, (read_numberStart start _).trans read⟩
  | @string literal rest body chars quoted no_block =>
    refine ⟨_, _, quoted, ?_⟩
    rw [quoted, List.cons_append, List.append_assoc] at no_block
    have whole : String.ofList ('"' :: (body ++ ['"'])) = literal := by
      rw [← quoted, String.ofList_toList]
    rw [List.append_assoc, ← whole]
    exact (anyString_of_no_block no_block).trans (string_exact chars rest)
  | @blockString literal rest body chars quoted =>
    have whole : String.ofList (tripleQuote ++ body ++ tripleQuote) = literal := by
      rw [← quoted, String.ofList_toList]
    refine ⟨'"', '"' :: '"' :: (body ++ tripleQuote), quoted, ?_⟩
    rw [← whole]
    exact blockString_exact chars rest

/-- What is read as a token is a lexeme, if its escapes are allowed. -/
theorem isLexeme_read (h : (read c cs).outcome = .ok k) (escapes : EscapesAllowed k) :
    IsLexeme (fun c => isBarred c = false) k (read c cs).rest := by
  unfold read at h ⊢
  split at h
  · next m marked =>
    cases h
    exact .punctuator _ _
  · split at h
    · next dot =>
      rw [if_pos dot, ellipsis_of_dots h]
      exact .punctuator _ _
    · next no_dot =>
      rw [if_neg no_dot]
      split at h
      · next quote =>
        rw [if_pos quote]
        exact isLexeme_anyString h escapes
      · next no_quote =>
        rw [if_neg no_quote]
        split at h
        · next start =>
          rw [if_pos start]
          exact isLexeme_name start h
        · next no_start =>
          rw [if_neg no_start]
          split at h
          · next digit =>
            rw [if_pos digit]
            exact isLexeme_number h
          · cases h

end GraphQL.Lexeme
