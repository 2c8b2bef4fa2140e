import GraphQL.Proofs.Scanner.Positions
import GraphQL.Proofs.Scanner.Splitting
import GraphQL.Proofs.Text.Numerals
import Mathlib.Data.String.Basic

/-! Strings on one line: the units that stand between their quotes, and the character that each unit
stands for. Every string that a scanner finds has a value just if it is made of such units, and every
text has as its spellings all that is made of units for its characters. -/
namespace GraphQL

namespace Text
open Lexical

/-- The escapes of one letter, with what they stand for. -/
def simpleEscapes : List (Char × Char) :=
  [('"', '"'), ('\\', '\\'), ('/', '/'), ('b', '\x08'), ('f', '\x0c'), ('n', '\n'), ('r', '\r'),
    ('t', '\t')]

/-- Four hexadecimal digits, and the number that they write. -/
def WritesFour (digits : List Char) (n : Nat) : Prop :=
  digits.length = 4 ∧ Writes IsHexadecimalDigit 16 digits n

/-- The units of a string with the character that each stands for, if some characters may stand for
themselves. Escapes write the code point of a character, or the two halves of a surrogate pair. -/
inductive IsQuotedUnit (plain : Char → Prop) : List Char → Char → Prop
  | plain {c : Char} (allowed : plain c) (no_escape : c ≠ '\\') : IsQuotedUnit plain [c] c
  | simple {letter c : Char} (listed : (letter, c) ∈ simpleEscapes) :
      IsQuotedUnit plain ['\\', letter] c
  | braced {digits : List Char} {c : Char} (some_digit : digits ≠ [])
      (code : Writes IsHexadecimalDigit 16 digits c.toNat) :
      IsQuotedUnit plain ('\\' :: 'u' :: '{' :: (digits ++ ['}'])) c
  | fixed {digits : List Char} {c : Char} (code : WritesFour digits c.toNat) :
      IsQuotedUnit plain ('\\' :: 'u' :: digits) c
  | pair {first second : List Char} {lead trail : Nat} {c : Char}
      (first_half : WritesFour first lead) (leads : 0xD800 ≤ lead ∧ lead ≤ 0xDBFF)
      (second_half : WritesFour second trail) (trails : 0xDC00 ≤ trail ∧ trail ≤ 0xDFFF)
      (code : c.toNat = 0x10000 + (lead - 0xD800) * 0x400 + (trail - 0xDC00)) :
      IsQuotedUnit plain ('\\' :: 'u' :: (first ++ '\\' :: 'u' :: second)) c

/-- The text between the quotes of a string is made of units, which stand for the characters of a
value. -/
inductive IsQuotedValue (plain : Char → Prop) : List Char → List Char → Prop
  | nil : IsQuotedValue plain [] []
  | cons {text body value : List Char} {c : Char} (unit : IsQuotedUnit plain text c)
      (later : IsQuotedValue plain body value) : IsQuotedValue plain (text ++ body) (c :: value)

variable {c : Char} {cs rest body value : List Char} {n : Nat} {fault : StringFault}

namespace Quoted

/-! ### Single escapes -/

theorem writes_of_takeWhile (cs : List Char) :
    Writes IsHexadecimalDigit 16 (cs.takeWhile isHexDigit) (hexValue (cs.takeWhile isHexDigit)) :=
  writes_hexadecimal_iff.mpr ⟨fun _ inside => List.mem_takeWhile_imp inside, rfl⟩

theorem fixedHex_iff :
    fixedHex cs = .ok (n, rest) ↔ ∃ digits, WritesFour digits n ∧ cs = digits ++ rest := by
  constructor
  · intro h
    simp only [fixedHex] at h
    split at h
    · next four =>
      cases h
      have all : (cs.take 4).takeWhile isHexDigit = cs.take 4 := by
        have found := List.takeWhile_prefix isHexDigit (l := cs.take 4)
        refine found.eq_of_length (found.length_le.antisymm ?_)
        rw [four]
        exact List.length_take_le 4 cs
      exact ⟨_, ⟨four, writes_of_takeWhile _⟩, by rw [all, List.take_append_drop]⟩
    · cases h
  · rintro ⟨digits, ⟨four, writes⟩, rfl⟩
    obtain ⟨all, rfl⟩ := writes_hexadecimal_iff.mp writes
    have taken : (digits ++ rest).take 4 = digits := by rw [← four, List.take_left]
    have left : (digits ++ rest).drop 4 = rest := by rw [← four, List.drop_left]
    simp [fixedHex, taken, left, List.takeWhile_eq_self_iff.mpr all, four]

theorem bracedHex_iff {digits : List Char} :
    bracedHex cs = .ok (digits, rest) ↔
      Writes IsHexadecimalDigit 16 digits (hexValue digits) ∧ cs = digits ++ '}' :: rest := by
  constructor
  · intro h
    simp only [bracedHex] at h
    split at h
    · next closed =>
      cases h
      exact ⟨writes_of_takeWhile _, by rw [← closed, List.takeWhile_append_dropWhile]⟩
    · cases h
  · rintro ⟨writes, rfl⟩
    obtain ⟨all, -⟩ := writes_hexadecimal_iff.mp writes
    have stops : ∀ d ∈ ('}' :: rest).head?, isHexDigit d = false := by
      rintro d ⟨⟩
      rfl
    simp only [bracedHex, Lexeme.takeWhile_run all stops, Lexeme.dropWhile_run all stops]

theorem scalar?_iff : scalar? n = some c ↔ n = c.toNat := by
  unfold scalar?
  split
  · next valid =>
    rw [Option.some.injEq]
    constructor
    · rintro rfl
      rw [Char.ofNat, dif_pos valid]
      rfl
    · rintro rfl
      exact Char.ofNat_toNat c
  · next invalid =>
    simp only [reduceCtorEq, false_iff]
    rintro rfl
    exact invalid c.valid

theorem trailEscape_iff {lead : Nat} :
    trailEscape lead cs = .ok (c, rest) ↔ ∃ digits trail, WritesFour digits trail ∧
      (0xDC00 ≤ trail ∧ trail ≤ 0xDFFF) ∧ c.toNat = pairValue lead trail ∧
      cs = '\\' :: 'u' :: (digits ++ rest) := by
  constructor
  · intro h
    unfold trailEscape at h
    split at h
    · next cs =>
      cases read : fixedHex cs with
      | error fault => simp [read] at h
      | ok found =>
        obtain ⟨trail, rest'⟩ := found
        simp only [read] at h
        obtain ⟨digits, four, rfl⟩ := fixedHex_iff.mp read
        split at h
        · next trails =>
          split at h
          · next code =>
            cases h
            exact ⟨digits, trail, four, by simpa [isTrail] using trails, (scalar?_iff.mp code).symm, rfl⟩
          · cases h
        · cases h
    · cases h
  · rintro ⟨digits, trail, four, trails, code, rfl⟩
    have read : fixedHex (digits ++ rest) = .ok (trail, rest) := fixedHex_iff.mpr ⟨digits, four, rfl⟩
    simp [trailEscape, read, isTrail, trails, scalar?_iff.mpr code.symm]

/-- An escape in braces. Any number of digits may stand there, but some. -/
theorem unicodeEscape_braced_iff :
    unicodeEscape ('{' :: cs) = .ok (c, rest) ↔
      ∃ digits, digits ≠ [] ∧ Writes IsHexadecimalDigit 16 digits c.toNat ∧
        cs = digits ++ '}' :: rest := by
  constructor
  · intro h
    cases read : bracedHex cs with
    | error fault => simp [unicodeEscape, read] at h
    | ok found =>
      obtain ⟨digits, rest'⟩ := found
      simp only [unicodeEscape, read] at h
      obtain ⟨writes, rfl⟩ := bracedHex_iff.mp read
      split at h
      · next some_digit code =>
        cases h
        rw [scalar?_iff.mp code] at writes
        exact ⟨_, by simp, writes, rfl⟩
      · cases h
  · rintro ⟨digits, some_digit, writes, rfl⟩
    obtain ⟨d, digits, rfl⟩ := List.exists_cons_of_ne_nil some_digit
    obtain ⟨-, value⟩ := writes_hexadecimal_iff.mp writes
    have read : bracedHex (d :: digits ++ '}' :: rest) = .ok (d :: digits, rest) :=
      bracedHex_iff.mpr ⟨value ▸ writes, rfl⟩
    simp only [List.cons_append] at read
    simp [unicodeEscape, read, scalar?_iff.mpr value.symm]

/-- Digits begin with no brace. -/
theorem no_brace {digits : List Char} (four : WritesFour digits n) (rest later : List Char) :
    digits ++ rest ≠ '{' :: later := by
  intro same
  obtain ⟨all, -⟩ := writes_hexadecimal_iff.mp four.2
  cases digits with
  | nil => cases four.1
  | cons d digits =>
    cases same
    exact absurd (all '{' List.mem_cons_self) (by decide)

theorem isLead_iff : isLead n = true ↔ 0xD800 ≤ n ∧ n ≤ 0xDBFF := by
  simp [isLead]

/-- No character has a number in the range of leads. -/
theorem isLead_toNat (c : Char) : isLead c.toNat = false := by
  have := c.valid
  simp only [UInt32.isValidChar, Nat.isValidChar, Char.toNat_val] at this
  simp only [isLead, Bool.and_eq_false_iff, decide_eq_false_iff_not]
  omega

/-- An escape of four digits, which writes a character or the lead of a pair. -/
theorem unicodeEscape_four_iff (unbraced : ∀ later, cs ≠ '{' :: later) :
    unicodeEscape cs = .ok (c, rest) ↔
      ∃ digits n later, WritesFour digits n ∧ cs = digits ++ later ∧
        (n = c.toNat ∧ later = rest ∨ isLead n = true ∧ trailEscape n later = .ok (c, rest)) := by
  rw [unicodeEscape.eq_2 _ (fun later same => unbraced later same)]
  constructor
  · intro h
    cases read : fixedHex cs with
    | error fault => simp [read] at h
    | ok found =>
      obtain ⟨n, later⟩ := found
      simp only [read] at h
      obtain ⟨digits, four, rfl⟩ := fixedHex_iff.mp read
      split at h
      · next leads => exact ⟨_, _, _, four, rfl, .inr ⟨leads, h⟩⟩
      · split at h
        · next code =>
          cases h
          exact ⟨_, _, _, four, rfl, .inl ⟨scalar?_iff.mp code, rfl⟩⟩
        · cases h
  · rintro ⟨digits, n, later, four, rfl, sort⟩
    have read : fixedHex (digits ++ later) = .ok (n, later) := fixedHex_iff.mpr ⟨digits, four, rfl⟩
    rcases sort with ⟨rfl, rfl⟩ | ⟨leads, paired⟩
    · simp [read, isLead_toNat, scalar?_iff.mpr rfl]
    · simp [read, leads, paired]

theorem unicodeEscape_iff {plain : Char → Prop} :
    unicodeEscape cs = .ok (c, rest) ↔
      ∃ text, cs = text ++ rest ∧ IsQuotedUnit plain ('\\' :: 'u' :: text) c := by
  constructor
  · intro h
    by_cases brace : ∃ later, cs = '{' :: later
    · obtain ⟨later, rfl⟩ := brace
      obtain ⟨digits, some_digit, writes, rfl⟩ := unicodeEscape_braced_iff.mp h
      exact ⟨_, by simp, .braced some_digit writes⟩
    · obtain ⟨digits, n, later, four, rfl, ⟨rfl, rfl⟩ | ⟨leads, paired⟩⟩ :=
        (unicodeEscape_four_iff (not_exists.mp brace)).mp h
      · exact ⟨_, rfl, .fixed four⟩
      · obtain ⟨digits', trail, four', trails, code, rfl⟩ := trailEscape_iff.mp paired
        exact ⟨_, by simp, .pair four (isLead_iff.mp leads) four' trails code⟩
  · rintro ⟨text, rfl, unit⟩
    cases unit with
    | simple listed => simp [simpleEscapes] at listed
    | braced some_digit code => exact unicodeEscape_braced_iff.mpr ⟨_, some_digit, code, by simp⟩
    | fixed four =>
      exact (unicodeEscape_four_iff (no_brace four rest)).mpr ⟨_, _, _, four, rfl, .inl ⟨rfl, rfl⟩⟩
    | pair four leads four' trails code =>
      rw [List.append_assoc]
      refine (unicodeEscape_four_iff (no_brace four _)).mpr
        ⟨_, _, _, four, rfl, .inr ⟨isLead_iff.mpr leads, ?_⟩⟩
      exact trailEscape_iff.mpr ⟨_, _, four', trails, code, rfl⟩

/-! ### Units in a row -/

theorem simpleEscape?_iff {letter : Char} :
    simpleEscape? letter = some c ↔ (letter, c) ∈ simpleEscapes := by
  constructor
  · intro h
    unfold simpleEscape? at h
    split at h <;> cases h <;> simp [simpleEscapes]
  · intro h
    simp only [simpleEscapes, List.mem_cons, Prod.mk.injEq, List.not_mem_nil, or_false] at h
    rcases h with ⟨rfl, rfl⟩ | ⟨rfl, rfl⟩ | ⟨rfl, rfl⟩ | ⟨rfl, rfl⟩ | ⟨rfl, rfl⟩ | ⟨rfl, rfl⟩ |
      ⟨rfl, rfl⟩ | ⟨rfl, rfl⟩ <;> rfl

/-- An escaped letter that stands for a character is a unit, whatever follows. -/
theorem unit_simple {letter : Char} (listed : (letter, c) ∈ simpleEscapes) (cs : List Char) :
    unit '\\' (letter :: cs) = .ok (c, cs) := by
  have found := simpleEscape?_iff.mpr listed
  unfold unit
  rw [if_pos rfl]
  split
  · next none => cases none
  · next same =>
    cases same
    simp [simpleEscapes] at listed
  · next same =>
    cases same
    simp only [found]

/-- One unit is read from the head of a text just if a unit stands there. -/
theorem unit_iff {d : Char} :
    unit d cs = .ok (c, rest) ↔
      ∃ text, d :: cs = text ++ rest ∧ IsQuotedUnit (fun _ => True) text c := by
  constructor
  · intro h
    unfold unit at h
    split at h
    · next escape =>
      subst escape
      split at h
      · cases h
      · obtain ⟨text, rfl, unit⟩ := unicodeEscape_iff.mp h
        exact ⟨_, rfl, unit⟩
      · next letter later no_unicode =>
        split at h
        · next found =>
          cases h
          exact ⟨['\\', letter], rfl, .simple (simpleEscape?_iff.mp found)⟩
        · cases h
    · next no_escape =>
      cases h
      exact ⟨[_], rfl, .plain trivial no_escape⟩
  · rintro ⟨text, same, is_unit⟩
    by_cases unicode : ∃ later, text = '\\' :: 'u' :: later
    · obtain ⟨later, rfl⟩ := unicode
      cases same
      exact unicodeEscape_iff.mpr ⟨later, rfl, is_unit⟩
    · cases is_unit with
      | plain _ no_escape =>
        cases same
        exact if_neg no_escape
      | simple listed =>
        cases same
        exact unit_simple listed rest
      | braced => exact absurd ⟨_, rfl⟩ unicode
      | fixed => exact absurd ⟨_, rfl⟩ unicode
      | pair => exact absurd ⟨_, rfl⟩ unicode

/-- A text is decoded just if it is made of units, to the characters that they stand for. -/
theorem decode_iff : decode cs = .ok value ↔ IsQuotedValue (fun _ => True) cs value := by
  constructor
  · intro h
    fun_induction decode cs generalizing value with
    | case1 =>
      cases h
      exact .nil
    | case2 => cases h
    | case3 d cs u rest read ih =>
      obtain ⟨text, same, is_unit⟩ := unit_iff.mp read
      cases later : decode rest with
      | error fault => simp [later, Except.map] at h
      | ok value' =>
        simp only [later, Except.map, Except.ok.injEq] at h
        subst h
        rw [same]
        exact .cons is_unit (ih later)
  · intro h
    induction h with
    | nil => rw [decode]
    | @cons text body value c is_unit later ih =>
      obtain ⟨d, more, rfl⟩ : ∃ d more, text = d :: more := by cases is_unit <;> exact ⟨_, _, rfl⟩
      have read : unit d (more ++ body) = .ok (c, body) := unit_iff.mpr ⟨_, rfl, is_unit⟩
      rw [List.cons_append, decode]
      split
      · next failed =>
        rw [read] at failed
        cases failed
      · next found =>
        rw [read] at found
        cases found
        rw [ih]
        rfl

/-! ### Literals -/

/-- What stands between the quotes is decoded, whatever it is. -/
theorem value_quoted (body : List Char) : Quoted.value ('"' :: (body ++ ['"'])) = decode body := by
  have front : List.isPrefixOf? ['"'] ('"' :: (body ++ ['"'])) = some (body ++ ['"']) := by
    simp [List.isPrefixOf?]
  have back : List.isSuffixOf? ['"'] (body ++ ['"']) = some body := by
    simp [List.isSuffixOf?, List.isPrefixOf?]
  simp only [Quoted.value, front, back]

theorem fixedHex_ne_unterminated : fixedHex cs ≠ .error .unterminated := by
  unfold fixedHex
  dsimp only
  split <;> nofun

theorem bracedHex_ne_unterminated : bracedHex cs ≠ .error .unterminated := by
  unfold bracedHex
  dsimp only
  split <;> nofun

theorem trailEscape_ne_unterminated {lead : Nat} : trailEscape lead cs ≠ .error .unterminated := by
  unfold trailEscape
  split
  · split
    · next fault failed =>
      rintro ⟨⟩
      exact fixedHex_ne_unterminated failed
    · split
      · split <;> nofun
      · nofun
  · nofun

theorem unicodeEscape_ne_unterminated : unicodeEscape cs ≠ .error .unterminated := by
  unfold unicodeEscape
  split
  · split
    · next fault failed =>
      rintro ⟨⟩
      exact bracedHex_ne_unterminated failed
    · split <;> nofun
  · split
    · next fault failed =>
      rintro ⟨⟩
      exact fixedHex_ne_unterminated failed
    · split
      · exact trailEscape_ne_unterminated
      · split <;> nofun

theorem unit_ne_unterminated {d : Char} : unit d cs ≠ .error .unterminated := by
  unfold unit
  split
  · split
    · nofun
    · exact unicodeEscape_ne_unterminated
    · split <;> nofun
  · nofun

/-- Between quotes, no fault is that a quote is missing. -/
theorem decode_ne_unterminated (cs : List Char) : decode cs ≠ .error .unterminated := by
  fun_induction decode cs with
  | case1 => nofun
  | case2 d cs fault failed =>
    rintro ⟨⟩
    exact unit_ne_unterminated failed
  | case3 d cs u rest read ih =>
    cases later : decode rest with
    | error fault =>
      rintro ⟨⟩
      exact ih later
    | ok value => nofun

end Quoted

/-! ### Spellings -/

theorem IsQuotedUnit.mono {plain plain' : Char → Prop} (weaker : ∀ c, plain c → plain' c)
    (h : IsQuotedUnit plain cs c) : IsQuotedUnit plain' cs c := by
  cases h with
  | plain allowed no_escape => exact .plain (weaker _ allowed) no_escape
  | simple listed => exact .simple listed
  | braced some_digit code => exact .braced some_digit code
  | fixed code => exact .fixed code
  | pair first_half leads second_half trails code =>
    exact .pair first_half leads second_half trails code

theorem IsQuotedValue.mono {plain plain' : Char → Prop} (weaker : ∀ c, plain c → plain' c)
    (h : IsQuotedValue plain body value) : IsQuotedValue plain' body value := by
  induction h with
  | nil => exact .nil
  | cons unit later ih => exact .cons (unit.mono weaker) ih

/-- The characters that can stand for themselves in a string on one line. -/
def StandsPlain (c : Char) : Prop :=
  c ≠ '"' ∧ isTerminator c = false ∧ Lexeme.isBarred c = false

theorem stringChars_append {left : List Char} (h : StringChars left) (later : StringChars rest) :
    StringChars (left ++ rest) := by
  induction h with
  | nil => exact later
  | plain quote escape line allowed _ ih => exact .plain quote escape line allowed ih
  | escaped line allowed _ ih => exact .escaped line allowed ih

/-- Hexadecimal digits may stand in strings. -/
theorem standsPlain_of_isHexadecimalDigit (h : IsHexadecimalDigit c n) : StandsPlain c ∧ c ≠ '\\' := by
  rcases h with h | h
  all_goals
    have few : n < 16 := (List.getElem?_eq_some_iff.mp h).1
    interval_cases n <;> (cases h; exact ⟨⟨by decide, by decide, by decide⟩, by decide⟩)

theorem stringChars_hexadecimal (writes : Writes IsHexadecimalDigit 16 cs n) : StringChars cs := by
  obtain ⟨digits, same, -⟩ := writes
  induction same with
  | nil => exact .nil
  | cons digit later ih =>
    obtain ⟨⟨quote, line, allowed⟩, escape⟩ := standsPlain_of_isHexadecimalDigit digit
    exact .plain quote escape line allowed ih

/-- A unit whose plain characters may stand in a string may stand there as a whole. -/
theorem IsQuotedUnit.stringChars (h : IsQuotedUnit StandsPlain cs c) : StringChars cs := by
  have unicode {cs : List Char} (chars : StringChars cs) : StringChars ('\\' :: 'u' :: cs) :=
    .escaped (by decide) (by decide) chars
  cases h with
  | plain allowed no_escape => exact .plain allowed.1 no_escape allowed.2.1 allowed.2.2 .nil
  | simple listed =>
    simp only [simpleEscapes, List.mem_cons, Prod.mk.injEq, List.not_mem_nil, or_false] at listed
    refine .escaped ?_ ?_ .nil <;>
      rcases listed with ⟨rfl, -⟩ | ⟨rfl, -⟩ | ⟨rfl, -⟩ | ⟨rfl, -⟩ | ⟨rfl, -⟩ | ⟨rfl, -⟩ | ⟨rfl, -⟩ |
        ⟨rfl, -⟩ <;> decide
  | braced some_digit code =>
    have closing : StringChars ['}'] := .plain (by decide) (by decide) (by decide) (by decide) .nil
    have digits := stringChars_append (stringChars_hexadecimal code) closing
    exact unicode (.plain (by decide) (by decide) (by decide) (by decide) digits)
  | fixed code => exact unicode (stringChars_hexadecimal code.2)
  | pair first_half leads second_half trails code =>
    exact unicode (stringChars_append (stringChars_hexadecimal first_half.2)
      (unicode (stringChars_hexadecimal second_half.2)))

theorem IsQuotedValue.stringChars (h : IsQuotedValue StandsPlain body value) : StringChars body := by
  induction h with
  | nil => exact .nil
  | cons unit later ih => exact stringChars_append unit.stringChars ih

end Text

open Text Lexical

/-- A string token is written between quotes. -/
theorem Lexeme.string_of_read {c : Char} {cs : List Char} {literal : String}
    (h : (Lexeme.read c cs).outcome = .ok (.string literal)) :
    ∃ body, literal.toList = '"' :: (body ++ ['"']) := by
  unfold Lexeme.read at h
  split at h
  · cases h
  · split_ifs at h
    · cases ellipsis_of_dots h
    · unfold anyString at h
      split at h
      · simp only [blockString] at h
        split at h <;> cases h
      · simp only [string] at h
        split at h
        · cases h
        · cases h
          exact ⟨_, String.toList_ofList⟩
        · split at h <;> cases h
    · cases h
    · obtain ⟨integer, places, power, rest, whole, fraction, exponent, ends, text⟩ := number_sound h
      rw [text, number_exact whole fraction exponent ends] at h
      simp only [token] at h
      split at h <;> cases h
    · cases h

/-- A string on one line that makes up a whole text is its one token. -/
theorem tokens_quoted {body : List Char} (name : String) (chars : StringChars body) :
    let text := '"' :: (body ++ ['"'])
    (⟨String.ofList text, name⟩ : Source).tokens =
      ⟨[⟨.string (String.ofList text), .first, .ending text⟩,
        ⟨.endOfInput, .ending text, .ending text⟩], none⟩ := by
  intro text
  have no_block : ¬ tripleQuote <+: text ++ [] := by
    rintro ⟨later, same⟩
    cases chars with
    | nil => cases same
    | plain quote => exact quote (List.cons.inj (List.cons.inj same).2).1.symm
    | escaped => exact absurd (List.cons.inj (List.cons.inj same).2).1 (by decide)
  have lexeme : IsLexeme (fun c => Lexeme.isBarred c = false) (.string (String.ofList text)) [] :=
    .string chars String.toList_ofList (by simpa using no_block)
  simpa [TokenKind.written] using lexeme.tokens_alone name

/-- The strings on one line that a scanner finds, whatever it came to before, have a value just if what
stands between their quotes is made of units, and then it is what these stand for; no fault is about
their quotes. All that is made of units for the characters of a text, and of plain characters only such
that may stand in a string, is one token between quotes, whose value is this text. -/
theorem strings_valued :
    (∀ (source : Source) (n : Nat) (t : Token) (literal : String),
      ((Scanner.start source).after n).next.1 = .ok t → t.kind = .string literal →
      ∃ body, slice t.start.offset t.stop.offset source.chars = some ('"' :: (body ++ ['"'])) ∧
        (∀ v : String, t.kind.stringValue? = some (.ok v) ↔
          IsQuotedValue (fun _ => True) body v.toList) ∧
        t.kind.stringValue? ≠ some (.error .unterminated)) ∧
    ∀ (body : List Char) (v name : String), IsQuotedValue StandsPlain body v.toList →
      let text := '"' :: (body ++ ['"'])
      let kind := TokenKind.string (String.ofList text)
      (⟨String.ofList text, name⟩ : Source).tokens =
        ⟨[⟨kind, .first, .ending text⟩, ⟨.endOfInput, .ending text, .ending text⟩], none⟩ ∧
      kind.stringValue? = some (.ok v) := by
  have cooked (literal v : String) (body : List Char) (quoted : literal.toList = '"' :: (body ++ ['"'])) :
      (TokenKind.string literal).stringValue? = some (.ok v) ↔
        IsQuotedValue (fun _ => True) body v.toList := by
    rw [← Quoted.decode_iff, TokenKind.stringValue?, quoted, Quoted.value_quoted]
    cases Quoted.decode body with
    | error fault => simp [Except.map]
    | ok value => simp [Except.map, String.ofList_eq]
  refine ⟨fun source n t literal step string => ?_, fun body v name spelling => ?_⟩
  · have cut := Scanner.slice_next step
    obtain ⟨-, gap, -, -, -, -, sort⟩ := Scanner.next_parts (Prod.ext step rfl)
    rw [string] at sort cut ⊢
    obtain ⟨last, -⟩ | ⟨-, c, cs, -, read⟩ := sort
    · cases last
    obtain ⟨body, quoted⟩ := Lexeme.string_of_read (congrArg Lexeme.outcome read)
    refine ⟨body, by rw [cut, TokenKind.written, quoted], fun v => cooked literal v body quoted, ?_⟩
    have closed := Quoted.decode_ne_unterminated body
    rw [TokenKind.stringValue?, quoted, Quoted.value_quoted]
    cases decoded : Quoted.decode body with
    | error fault =>
      rintro ⟨⟩
      exact closed decoded
    | ok value => rintro ⟨⟩
  · exact ⟨tokens_quoted name spelling.stringChars,
      (cooked _ v body String.toList_ofList).mpr (spelling.mono fun _ _ => trivial)⟩

/-- A tab as it is, an escaped quote, a number with many zeros and a surrogate pair, after a fault. -/
theorem strings_valued_units :
    let body := "\t\\\"\\u\x7b000041\x7d\\uD83D\\ude00".toList
    let literal := String.ofList ('"' :: (body ++ ['"']))
    let s : Source := ⟨"~" ++ literal ++ "b", Source.defaultName⟩
    ∃ t between, ((Scanner.start s).after 1).next.1 = .ok t ∧
      slice t.start.offset t.stop.offset s.chars = some ('"' :: (between ++ ['"'])) ∧
      IsQuotedValue (fun _ => True) between "\t\"A😀".toList ∧
      (⟨literal, s.name⟩ : Source).tokens.failure = none := by
  intro body literal s
  have digits : Writes IsHexadecimalDigit 16 "000041".toList 'A'.toNat :=
    writes_hexadecimal_iff.mpr ⟨by simp [isHexDigit, isDigit], by decide +kernel⟩
  have lead : WritesFour "D83D".toList 0xD83D :=
    ⟨rfl, writes_hexadecimal_iff.mpr ⟨by simp [isHexDigit, isDigit], by decide +kernel⟩⟩
  have trail : WritesFour "de00".toList 0xDE00 :=
    ⟨rfl, writes_hexadecimal_iff.mpr ⟨by simp [isHexDigit, isDigit], by decide +kernel⟩⟩
  have spelling : IsQuotedValue StandsPlain body "\t\"A😀".toList :=
    .cons (.plain ⟨by decide, by decide, by decide⟩ (by decide)) <|
      .cons (.simple (by decide)) <|
      .cons (.braced (by decide) digits) <|
      .cons (.pair lead (by decide) trail (by decide) (by decide)) .nil
  obtain ⟨tokens, cooked⟩ := strings_valued.2 body "\t\"A😀" s.name spelling
  have step : ((Scanner.start s).after 1).next.1 =
      .ok ⟨.string literal, ⟨0, 1, 1, 1⟩, ⟨0, 28, 28, 28⟩⟩ := by decide +kernel
  obtain ⟨between, cut, valued, -⟩ := strings_valued.1 s 1 _ literal step rfl
  exact ⟨_, between, step, cut, (valued _).mp cooked, by rw [tokens]⟩

end GraphQL
