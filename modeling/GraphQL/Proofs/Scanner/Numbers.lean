import GraphQL.Parser
import GraphQL.Proofs.Scanner.Spans
import GraphQL.Proofs.Scanner.Splitting
import GraphQL.Proofs.Text.Numerals

/-! Numbers in a text. Where one begins, the longest number there is a token if it may stand in front of
what follows, and otherwise all that looks like a part of a number is at fault. Integers have a
value if it fits into 32 bits. -/
namespace GraphQL

namespace Lexical
open Text

/-- The characters of a class at the head of a text are the longest run of it there. -/
theorem longest_takeWhile (p : Char → Bool) (cs : List Char) :
    Longest (fun run => ∀ c ∈ run, p c = true) (cs.takeWhile p) (cs.dropWhile p) := by
  refine ⟨fun c hc => List.mem_takeWhile_imp hc, fun more later same longer => ?_⟩
  cases more with
  | nil => rfl
  | cons x more =>
    have stops := Lexeme.stops_dropWhile p cs x (by simp [same])
    rw [longer x (by simp)] at stops
    cases stops

/-- The token that a number is: a float if it has a fraction or an exponent. -/
def IsNumberToken (number : List Char) (k : TokenKind) : Prop :=
  IsFloat number ∧ k = .float (String.ofList number) ∨
    ¬ IsFloat number ∧ k = .int (String.ofList number)

theorem IsNumberToken.unique {number : List Char} {k k' : TokenKind} (h : IsNumberToken number k)
    (h' : IsNumberToken number k') : k = k' := by
  rcases h with ⟨float, rfl⟩ | ⟨no_float, rfl⟩ <;> rcases h' with ⟨float', rfl⟩ | ⟨no_float', rfl⟩
  · rfl
  · exact absurd float no_float'
  · exact absurd float' no_float
  · rfl

/-- A number that is a token of an integer is one. -/
theorem IsNumberToken.isInteger {number : List Char} {literal : String}
    (h : IsNumberToken number (.int literal)) (is_number : IsNumber number) :
    IsInteger literal.toList := by
  rcases h with ⟨-, float⟩ | ⟨no_float, int⟩
  · cases float
  · cases int
    rw [String.toList_ofList]
    exact is_number.resolve_right no_float

/-- The characters that numbers are made of, and all letters and the underscore. -/
def IsNumberPart (c : Char) : Prop :=
  isLetter c = true ∨ isDigit c = true ∨ c ∈ ['_', '.', '+', '-']

/-- What is at fault where a number begins that is none: a minus sign alone if no digit follows it, and
otherwise all that looks like a part of a number. -/
inductive FaultCovers : List Char → List Char → Prop
  | minus {later : List Char} (alone : ∀ d ∈ later.head?, isDigit d = false) :
      FaultCovers ('-' :: later) ['-']
  | digit {sign later run rest : List Char} {d : Char} (signs : sign ∈ [[], ['-']])
      (digit : isDigit d = true) (text : sign ++ d :: later = run ++ rest)
      (longest : Longest (fun run => ∀ c ∈ run, IsNumberPart c) run rest) :
      FaultCovers (sign ++ d :: later) run

end Lexical

namespace Lexeme
open Text Lexical

variable {c : Char} {cs rest text : List Char} {k : TokenKind}

/-- An integer is read as one, and anything longer as a float. -/
theorem not_isFloat_of_isInteger (h : IsInteger text) : ¬ IsFloat text := by
  rintro ⟨integer, places, power, whole, fraction, exponent, ne, same⟩
  have ends : EndsNumber [] := by simp [EndsNumber]
  have read := number_exact h .none .none ends
  have read' := number_exact whole fraction exponent ends
  rw [if_neg (by simpa using ne), ← List.append_assoc integer, ← same] at read'
  simp only [List.append_nil] at read read'
  rw [read'] at read
  cases congrArg Lexeme.outcome read

theorem number_isNumberToken (h : IsNumber text) (ends : EndsNumber rest) :
    ∃ k, IsNumberToken text k ∧ number (text ++ rest) = token k text rest := by
  rcases h with whole | float
  · have read := number_exact whole .none .none ends
    rw [List.append_nil, List.append_nil] at read
    exact ⟨_, .inr ⟨not_isFloat_of_isInteger whole, rfl⟩, read⟩
  · obtain ⟨integer, places, power, whole, fraction, exponent, ne, rfl⟩ := id float
    have read := number_exact whole fraction exponent ends
    rw [if_neg (by simpa using ne), ← List.append_assoc integer] at read
    exact ⟨_, .inl ⟨float, rfl⟩, read⟩

/-- The reader of numbers finds a token just if the longest number may stand in front of what follows. -/
theorem number_eq_token_iff :
    (number cs).outcome = .ok k ↔
      ∃ text rest, cs = text ++ rest ∧ Longest IsNumber text rest ∧ EndsNumber rest ∧
        IsNumberToken text k ∧ number cs = token k text rest := by
  constructor
  · intro h
    obtain ⟨integer, places, power, rest, whole, fraction, exponent, ends, rfl⟩ := number_sound h
    have is_number : IsNumber (integer ++ (places ++ power)) := by
      by_cases tail : places ++ power = []
      · rw [tail, List.append_nil]
        exact .inl whole
      · exact .inr ⟨integer, places, power, whole, fraction, exponent, tail, by simp⟩
    obtain ⟨k', sort, read⟩ := number_isNumberToken is_number ends
    rw [read] at h
    cases h
    exact ⟨_, rest, rfl, longest_number is_number ends, ends, sort, read⟩
  · rintro ⟨text, rest, -, -, -, -, read⟩
    rw [read]
    rfl

theorem isNumberPart_iff : isNumberPart c = true ↔ IsNumberPart c := by
  simp [isNumberPart, IsNumberPart, or_assoc]

/-- A faulty number covers all that looks like a part of it. -/
theorem faultCovers_run {sign later : List Char} {d : Char} (signs : sign ∈ [[], ['-']])
    (digit : isDigit d = true) (text : cs = sign ++ d :: later) :
    FaultCovers cs (cs.takeWhile isNumberPart) := by
  subst text
  refine .digit signs digit List.takeWhile_append_dropWhile.symm ?_
  simpa only [isNumberPart_iff] using longest_takeWhile isNumberPart _

/-- Only a minus sign begins a number without digits. -/
theorem minusSign_no_digit (begins : c = '-' ∨ isDigit c = true)
    (none : (minusSign (c :: cs)).2.takeWhile isDigit = []) :
    c = '-' ∧ ∀ d ∈ cs.head?, isDigit d = false := by
  rcases begins with rfl | digit
  · refine ⟨rfl, fun d first => ?_⟩
    cases cs with
    | nil => cases first
    | cons x cs =>
      cases first
      rw [← Bool.not_eq_true]
      intro digit
      simp [minusSign, digit] at none
  · have unsigned : minusSign (c :: cs) = ([], c :: cs) := by
      unfold minusSign
      split
      · next same => cases same; cases digit
      · rfl
    simp [unsigned, digit] at none

/-- Where the reader of numbers finds no token, it tells what is at fault. -/
theorem number_fault {v : Violation} (begins : c = '-' ∨ isDigit c = true)
    (h : (number (c :: cs)).outcome = .error v) :
    v.label = "InvalidNumber" ∧ (number (c :: cs)).before = [] ∧
      FaultCovers (c :: cs) (number (c :: cs)).taken := by
  have signed := minusSign_append (c :: cs)
  have signs := minusSign_signs (c :: cs)
  have covers (some_digit : (minusSign (c :: cs)).2.takeWhile isDigit ≠ []) :
      FaultCovers (c :: cs) ((c :: cs).takeWhile isNumberPart) := by
    obtain ⟨d, digits, run⟩ := List.exists_cons_of_ne_nil some_digit
    have digit : isDigit d = true := List.mem_takeWhile_imp (run ▸ List.mem_cons_self)
    have body := List.takeWhile_append_dropWhile (p := isDigit) (l := (minusSign (c :: cs)).2)
    rw [run, List.cons_append] at body
    exact faultCovers_run signs digit (by rw [body, signed])
  unfold number at h ⊢
  dsimp only at h ⊢
  split at h
  · next none =>
    cases h
    obtain ⟨rfl, alone⟩ := minusSign_no_digit begins none
    exact ⟨rfl, rfl, .minus alone⟩
  · next run =>
    cases h
    exact ⟨rfl, rfl, covers (by simp [run])⟩
  · next some_digit _ =>
    split at h
    · next failed =>
      cases h
      exact ⟨rfl, rfl, covers some_digit⟩
    · cases h

end Lexeme

open Text Lexical

/-- Every integer literal writes an integer. -/
theorem Lexical.IsInteger.writes {text : List Char} (h : IsInteger text) : ∃ v, WritesInteger text v := by
  obtain ⟨sign, whole, signs, digits, -, rfl⟩ := h
  have number : Writes IsDecimalDigit 10 whole (digitsValue whole) :=
    writes_decimal_iff.mpr ⟨digits.2, rfl⟩
  simp only [List.mem_cons, List.not_mem_nil, or_false] at signs
  rcases signs with rfl | rfl
  · exact ⟨_, .plain number⟩
  · exact ⟨_, .minus number⟩

/-- An integer that makes up a whole text is parsed as its value, if 32 bits can hold it. -/
theorem parseValue_int {literal : String} {v : Int} (name : String) (integer : IsInteger literal.toList)
    (writes : WritesInteger literal.toList v) :
    let s : Source := ⟨literal, name⟩
    let origin : Origin := ⟨s, .first, .ending s.chars⟩
    (-2 ^ 31 ≤ v ∧ v ≤ 2 ^ 31 - 1 →
      ∃ x : Int32, x.toInt = v ∧ s.parseValue = .ok (.int (some origin) x)) ∧
    (¬ (-2 ^ 31 ≤ v ∧ v ≤ 2 ^ 31 - 1) → s.parseValue = .error ⟨.intRange literal, origin, []⟩) := by
  intro s origin
  have ends : EndsNumber [] := by simp [EndsNumber]
  have lexeme : IsLexeme (fun c => Lexeme.isBarred c = false) (.int literal) [] :=
    .int integer (Lexeme.longest_number (.inl integer) ends) ends
  have tokens : s.tokens = ⟨[⟨.int literal, .first, .ending s.chars⟩,
      ⟨.endOfInput, .ending s.chars, .ending s.chars⟩], none⟩ := lexeme.tokens_alone name
  have read : s.parseValue = (Decimal.ofLiteral literal.toList).toInt32?.elim
      (.error ⟨.intRange literal, origin, []⟩) fun x => .ok (.int (some origin) x) := by
    have leaf : (Parser.value none nestingLimit : Parser Value) =
        Parser.valueWith none (Parser.value none 63) := rfl
    cases fits : (Decimal.ofLiteral literal.toList).toInt32?
    all_goals
      simp [Source.parseValue, Source.valueWithin, Parser.run, Parser.alone, leaf, Parser.valueWith,
        Parser.leafValue, Parser.start, tokens, Parser.consume, Parser.peek, Parser.spanFrom, fits, origin,
        Parser.fail, Parser.expectEnd, bind, StateT.bind, Except.bind]
    rfl
  rw [← Decimal.toInt_ofLiteral writes]
  constructor
  · intro range
    obtain ⟨x, fits, same⟩ := Decimal.toInt32?_of_inRange range
    exact ⟨x, same, by rw [read, fits, Option.elim_some]⟩
  · intro out
    rw [read, Decimal.toInt32?_of_not_inRange out, Option.elim_none]

namespace Scanner

theorem locate_ok_iff {s : Scanner} {l : Lexeme} {t : Token} :
    s.locate l = .ok t ↔ l.outcome = .ok t.kind ∧ t.start = (s.place.pass l.before).position ∧
      t.stop = (s.place.pass (l.before ++ l.taken)).position := by
  obtain ⟨kind, start, stop⟩ := t
  unfold locate
  cases l.outcome <;> simp [eq_comm]

theorem locate_error_iff {s : Scanner} {l : Lexeme} {e : SyntaxError} :
    s.locate l = .error e ↔ l.outcome = .error e.violation ∧ e.unclosed = [] ∧
      e.origin = ⟨s.source, (s.place.pass l.before).position,
        (s.place.pass (l.before ++ l.taken)).position⟩ := by
  obtain ⟨violation, origin, unclosed⟩ := e
  unfold locate
  cases l.outcome <;> simp [eq_comm, and_comm]

theorem source_after (s : Scanner) (n : Nat) : (s.after n).source = s.source := by
  induction n with
  | zero => rfl
  | succ n ih => rw [after, source_next, ih]

/-- Where a number begins, a step of the scanner is what the reader of numbers makes of it. -/
theorem next_number {s : Scanner} {source : Source} {c : Char} {cs : List Char} (reads : s.IsIn source)
    (here : s.skipIgnored.rest = c :: cs) (begins : c = '-' ∨ isDigit c = true) :
    ∃ before, source.chars = before ++ c :: cs ∧ s.skipIgnored.place = Place.first.pass before ∧
      s.next.1 = s.skipIgnored.locate (Lexeme.number (c :: cs)) := by
  obtain ⟨before, chars, place⟩ := reads.skipIgnored
  refine ⟨before, by rw [chars, here], place, ?_⟩
  simp only [next, here, Lexeme.read_numberStart begins]

section Located

variable {s : Scanner} {before : List Char} {c : Char} {cs : List Char}
  (place : s.place = Place.first.pass before)
include place

theorem locate_number_ok_iff {t : Token} :
    s.locate (Lexeme.number cs) = .ok t ↔ ∃ number rest, cs = number ++ rest ∧
      Longest IsNumber number rest ∧ EndsNumber rest ∧ IsNumberToken number t.kind ∧
      t.start = .ending before ∧ t.stop = .ending (before ++ number) := by
  rw [locate_ok_iff, Lexeme.number_eq_token_iff, place]
  constructor
  · rintro ⟨⟨number, rest, text, longest, ends, sort, read⟩, start, stop⟩
    refine ⟨number, rest, text, longest, ends, sort, ?_, ?_⟩
    · simpa [read, Lexeme.token, Place.pass_first] using start
    · simpa [read, Lexeme.token, Place.position_pass] using stop
  · rintro ⟨number, rest, text, longest, ends, sort, start, stop⟩
    obtain ⟨k, sort', read⟩ := Lexeme.number_isNumberToken longest.1 ends
    rw [← text] at read
    refine ⟨⟨number, rest, text, longest, ends, sort, ?_⟩, ?_, ?_⟩
    · rw [read, sort.unique sort']
    · simpa [read, Lexeme.token, Place.pass_first] using start
    · simpa [read, Lexeme.token, Place.position_pass] using stop

theorem locate_number_error {e : SyntaxError} (begins : c = '-' ∨ isDigit c = true)
    (failed : s.locate (Lexeme.number (c :: cs)) = .error e) :
    e.violation.label = "InvalidNumber" ∧ ∃ covered, FaultCovers (c :: cs) covered ∧
      e.origin = ⟨s.source, .ending before, .ending (before ++ covered)⟩ := by
  obtain ⟨outcome, -, origin⟩ := locate_error_iff.mp failed
  obtain ⟨label, nothing, covers⟩ := Lexeme.number_fault begins outcome
  refine ⟨label, _, covers, ?_⟩
  rw [origin, nothing, place, List.nil_append, Place.position_pass, Place.position_pass,
    List.append_nil]

end Located
end Scanner

/-- Where a number begins in a text, a step of the scanner gives a token just if the longest number there
does not stand in front of a point, a digit, a letter or an underscore; the token is this number.
Otherwise it gives an error about all that looks like a part of a number. An integer that makes up a
whole text is parsed just if 32 bits can hold its value. -/
theorem numbers_scanned {source : Source} {n : Nat} {c : Char} {cs : List Char}
    (here : ((Scanner.start source).after n).skipIgnored.rest = c :: cs)
    (begins : c = '-' ∨ isDigit c = true) :
    let result := ((Scanner.start source).after n).next.1
    (∃ before, source.chars = before ++ c :: cs ∧
      (∀ t, result = .ok t ↔ ∃ number rest, c :: cs = number ++ rest ∧ Longest IsNumber number rest ∧
        EndsNumber rest ∧ IsNumberToken number t.kind ∧
        t.start = .ending before ∧ t.stop = .ending (before ++ number)) ∧
      ∀ e, result = .error e → e.violation.label = "InvalidNumber" ∧
        ∃ covered, FaultCovers (c :: cs) covered ∧
          e.origin = ⟨source, .ending before, .ending (before ++ covered)⟩) ∧
    ∀ t literal name, result = .ok t → t.kind = .int literal →
      let alone : Source := ⟨literal, name⟩
      ∃ v, WritesInteger literal.toList v ∧
        (-2 ^ 31 ≤ v ∧ v ≤ 2 ^ 31 - 1 → ∃ origin, ∃ x : Int32, x.toInt = v ∧
          alone.parseValue = .ok (.int origin x)) ∧
        (¬ (-2 ^ 31 ≤ v ∧ v ≤ 2 ^ 31 - 1) → ∃ e, alone.parseValue = .error e) := by
  intro result
  obtain ⟨before, chars, place, step⟩ :=
    Scanner.next_number (Scanner.isIn_after source n) here begins
  have found : result = _ := step
  have same : ((Scanner.start source).after n).skipIgnored.source = source := by
    rw [Scanner.skipIgnored_eq]
    exact Scanner.source_after _ n
  refine ⟨⟨before, chars, fun t => ?_, fun e failed => ?_⟩, fun t literal name read int => ?_⟩
  · rw [found, Scanner.locate_number_ok_iff place]
  · rw [found] at failed
    obtain ⟨label, covered, covers, origin⟩ := Scanner.locate_number_error place begins failed
    exact ⟨label, covered, covers, by rw [origin, same]⟩
  · rw [found, Scanner.locate_number_ok_iff place, int] at read
    obtain ⟨number, rest, -, longest, -, sort, -, -⟩ := read
    have integer := sort.isInteger longest.1
    obtain ⟨v, writes⟩ := integer.writes
    obtain ⟨inside, outside⟩ := parseValue_int name integer writes
    exact ⟨v, writes, fun range => ⟨_, inside range⟩, fun out => ⟨_, outside out⟩⟩

/-- The least integer of 32 bits, behind a name, and what is parsed where it stands alone. -/
theorem numbers_scanned_least :
    let s : Source := ⟨"a -2147483648)", Source.defaultName⟩
    ((Scanner.start s).after 1).next.1 = .ok ⟨.int "-2147483648", ⟨0, 2, 2, 2⟩, ⟨0, 13, 13, 13⟩⟩ ∧
      ∃ origin, ∃ x : Int32, x.toInt = -2 ^ 31 ∧
        (⟨"-2147483648", s.name⟩ : Source).parseValue = .ok (.int origin x) := by
  intro s
  have read : ((Scanner.start s).after 1).next.1 =
      .ok ⟨.int "-2147483648", ⟨0, 2, 2, 2⟩, ⟨0, 13, 13, 13⟩⟩ := by decide +kernel
  have here : ((Scanner.start s).after 1).skipIgnored.rest = '-' :: "2147483648)".toList := by
    decide +kernel
  obtain ⟨-, alone⟩ := numbers_scanned here (.inl rfl)
  obtain ⟨v, writes, inside, -⟩ := alone _ _ s.name read rfl
  obtain rfl : -2 ^ 31 = v := Decimal.toInt_ofLiteral writes ▸ by decide +kernel
  exact ⟨read, inside (by decide)⟩

end GraphQL
