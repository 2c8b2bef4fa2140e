import GraphQL.Proofs.Scanner.Written

/-! The lexical grammar, apart from any scanner: which texts are ignored between lexemes, which are
lexemes in front of what follows them, and how a text splits into these. -/
namespace GraphQL.Lexical
open Text

/-- A text of a language, with no longer text of that language at the same place. -/
def Longest (language : List Char → Prop) (text rest : List Char) : Prop :=
  language text ∧ ∀ more later, rest = more ++ later → language (text ++ more) → more = []

/-- What is ignored between lexemes, in front of some text: blanks, commas, byte order marks, and
comments, which go on to the end of their line. -/
inductive Ignored : List Char → List Char → Prop
  | nothing (rest : List Char) : Ignored [] rest
  | blank {c : Char} {gap rest : List Char} (listed : c ∈ [' ', '\t', '\n', '\r', ',', '\uFEFF'])
      (later : Ignored gap rest) : Ignored (c :: gap) rest
  | comment {line gap rest : List Char} (inside : ∀ c ∈ line, isTerminator c = false)
      (stops : ∀ c ∈ (gap ++ rest).head?, isTerminator c = true) (later : Ignored gap rest) :
      Ignored ('#' :: (line ++ gap)) rest

/-- One digit or more. -/
def IsDigits (cs : List Char) : Prop := cs ≠ [] ∧ ∀ c ∈ cs, isDigit c = true

/-- Digits with no zero before others, and perhaps a minus sign before them. -/
def IsInteger (cs : List Char) : Prop :=
  ∃ sign whole, sign ∈ [[], ['-']] ∧ IsDigits whole ∧ (whole.head? = some '0' → whole = ['0']) ∧
    cs = sign ++ whole

/-- An integer starts with a minus sign or a digit. -/
theorem IsInteger.start {cs : List Char} (h : IsInteger cs) :
    ∃ c later, cs = c :: later ∧ (c = '-' ∨ isDigit c = true) := by
  obtain ⟨sign, whole, signs, ⟨ne, run⟩, -, rfl⟩ := h
  obtain ⟨d, ds, rfl⟩ := List.exists_cons_of_ne_nil ne
  simp only [List.mem_cons, List.not_mem_nil, or_false] at signs
  rcases signs with rfl | rfl
  · exact ⟨d, ds, rfl, .inr (run d List.mem_cons_self)⟩
  · exact ⟨'-', d :: ds, rfl, .inl rfl⟩

inductive IsFraction : List Char → Prop
  | none : IsFraction []
  | some {digits : List Char} (places : IsDigits digits) : IsFraction ('.' :: digits)

inductive IsExponent : List Char → Prop
  | none : IsExponent []
  | some {mark : Char} {sign digits : List Char} (marks : mark ∈ ['e', 'E'])
      (signs : sign ∈ [[], ['+'], ['-']]) (power : IsDigits digits) :
      IsExponent (mark :: (sign ++ digits))

/-- An integer and then a fraction, an exponent or both. -/
def IsFloat (cs : List Char) : Prop :=
  ∃ integer places power, IsInteger integer ∧ IsFraction places ∧ IsExponent power ∧
    places ++ power ≠ [] ∧ cs = integer ++ places ++ power

def IsNumber (cs : List Char) : Prop := IsInteger cs ∨ IsFloat cs

/-- What a number must not stand in front of. -/
def EndsNumber (rest : List Char) : Prop :=
  ∀ c ∈ rest.head?, c ≠ '.' ∧ isDigit c = false ∧ isNameStart c = false

/-- What stands between the quotes of a string on one line: no line ends and no barred characters;
quotes and backslashes only after a backslash. -/
inductive StringChars : List Char → Prop
  | nil : StringChars []
  | plain {c : Char} {cs : List Char} (quote : c ≠ '"') (escape : c ≠ '\\')
      (line : isTerminator c = false) (allowed : Lexeme.isBarred c = false)
      (later : StringChars cs) : StringChars (c :: cs)
  | escaped {c : Char} {cs : List Char} (line : isTerminator c = false)
      (allowed : Lexeme.isBarred c = false) (later : StringChars cs) : StringChars ('\\' :: c :: cs)

/-- Three quotes. -/
def tripleQuote : List Char := ['"', '"', '"']

/-- What stands between the quotes of a block string, if some characters may: up to the first three
quotes in a row that have no backslash before them. -/
inductive BlockChars (allowed : Char → Prop) : List Char → Prop
  | nil : BlockChars allowed []
  | escaped {cs : List Char} (later : BlockChars allowed cs) :
      BlockChars allowed ('\\' :: (tripleQuote ++ cs))
  | plain {c : Char} {cs : List Char} (is_allowed : allowed c)
      (opens : ¬ tripleQuote <+: c :: (cs ++ tripleQuote))
      (escapes : ¬ '\\' :: tripleQuote <+: c :: (cs ++ tripleQuote))
      (later : BlockChars allowed cs) : BlockChars allowed (c :: cs)

/-- The lexemes, in front of what follows them. A block string is preferred where three quotes
stand. -/
inductive IsLexeme (inBlock : Char → Prop) : TokenKind → List Char → Prop
  | punctuator (mark : Punctuator) (rest : List Char) : IsLexeme inBlock (.punctuator mark) rest
  | name {text : String} {rest : List Char}
      (longest : Longest (fun cs => IsName (String.ofList cs)) text.toList rest) :
      IsLexeme inBlock (.name text) rest
  | int {literal : String} {rest : List Char} (integer : IsInteger literal.toList)
      (longest : Longest IsNumber literal.toList rest) (ends : EndsNumber rest) :
      IsLexeme inBlock (.int literal) rest
  | float {literal : String} {rest : List Char} (float : IsFloat literal.toList)
      (longest : Longest IsNumber literal.toList rest) (ends : EndsNumber rest) :
      IsLexeme inBlock (.float literal) rest
  | string {literal : String} {rest body : List Char} (chars : StringChars body)
      (quoted : literal.toList = '"' :: (body ++ ['"']))
      (no_block : ¬ tripleQuote <+: literal.toList ++ rest) : IsLexeme inBlock (.string literal) rest
  | blockString {literal : String} {rest body : List Char} (chars : BlockChars inBlock body)
      (quoted : literal.toList = tripleQuote ++ body ++ tripleQuote) :
      IsLexeme inBlock (.blockString literal) rest

theorem IsLexeme.ne_end {inBlock : Char → Prop} {kind : TokenKind} {rest : List Char}
    (h : IsLexeme inBlock kind rest) : kind ≠ .endOfInput := by
  rintro rfl
  cases h

/-- Tokens but for strings on one line that have a backslash right before a barred character. -/
def EscapesAllowed : TokenKind → Prop
  | .string literal => ∀ c, Lexeme.isBarred c = true → ¬ ['\\', c] <:+: literal.toList
  | _ => True

theorem StringChars.allowed {cs : List Char} (h : StringChars cs) :
    ∀ c ∈ cs, Lexeme.isBarred c = false := by
  induction h with
  | nil => simp
  | plain quote escape line allowed later ih =>
    exact List.forall_mem_cons.2 ⟨allowed, ih⟩
  | escaped line allowed later ih =>
    exact List.forall_mem_cons.2 ⟨by decide, List.forall_mem_cons.2 ⟨allowed, ih⟩⟩

theorem IsLexeme.escapesAllowed {inBlock : Char → Prop} {kind : TokenKind} {rest : List Char}
    (h : IsLexeme inBlock kind rest) : EscapesAllowed kind := by
  cases h with
  | @string literal rest body chars quoted no_block =>
    rintro c barred ⟨left, right, same⟩
    have inside : c ∈ literal.toList := by simp [← same]
    rw [quoted] at inside
    simp only [List.mem_cons, List.mem_append, List.not_mem_nil, or_false] at inside
    rcases inside with rfl | inside | rfl
    · cases barred
    · rw [chars.allowed c inside] at barred
      cases barred
    · cases barred
  | _ => trivial

/-- A text splits into lexemes with what is ignored before each; the last part has no lexeme. -/
inductive Splits (inBlock : Char → Prop) : List Char → List (List Char × TokenKind) → Prop
  | ending {gap : List Char} (ignored : Ignored gap []) : Splits inBlock gap [(gap, .endOfInput)]
  | lexeme {gap rest : List Char} {kind : TokenKind} {parts : List (List Char × TokenKind)}
      (ignored : Ignored gap (kind.written.toList ++ rest)) (is_lexeme : IsLexeme inBlock kind rest)
      (later : Splits inBlock rest parts) :
      Splits inBlock (gap ++ kind.written.toList ++ rest) ((gap, kind) :: parts)

end GraphQL.Lexical
