import GraphQL.Violation

/-! Lexemes: what stands at the head of a text, with no regard to positions. Every reader divides
the text into characters before a fault, characters taken and the rest, and loses none of them. -/
namespace GraphQL

/-- The head of a text, read. A token takes all of its characters; a fault is about the characters
taken, and others may stand before them. -/
structure Lexeme where
  before : List Char
  taken : List Char
  rest : List Char
  outcome : Except Violation TokenKind

namespace Lexeme
open Text

/-- The text that a lexeme was read from. -/
def whole (l : Lexeme) : List Char := l.before ++ l.taken ++ l.rest

/-- A token. -/
def token (kind : TokenKind) (taken rest : List Char) : Lexeme := ⟨[], taken, rest, .ok kind⟩

/-- A fault in the characters taken. -/
def fault (violation : Violation) (taken rest : List Char) : Lexeme :=
  ⟨[], taken, rest, .error violation⟩

/-- Characters between tokens, comments apart. Commas are among them. -/
def isIgnored (c : Char) : Bool :=
  c == ' ' || c == '\t' || c == '\n' || c == '\r' || c == ',' || c == '\uFEFF'

/-- Divides a text into what is ignored at its head and the rest. A comment runs from `#` to the end
of its line; the flag says that the text starts inside one. -/
def splitIgnored : Bool → List Char → List Char × List Char
  | _, [] => ([], [])
  | inComment, c :: cs =>
    if inComment && !isTerminator c then
      let (skipped, rest) := splitIgnored true cs
      (c :: skipped, rest)
    else if isIgnored c then
      let (skipped, rest) := splitIgnored false cs
      (c :: skipped, rest)
    else if c == '#' then
      let (skipped, rest) := splitIgnored true cs
      (c :: skipped, rest)
    else ([], c :: cs)

/-- Inside a comment the rest of the line is ignored first. -/
theorem splitIgnored_true (cs : List Char) :
    splitIgnored true cs =
      (cs.takeWhile (!isTerminator ·) ++ (splitIgnored false (cs.dropWhile (!isTerminator ·))).1,
        (splitIgnored false (cs.dropWhile (!isTerminator ·))).2) := by
  induction cs with
  | nil => rfl
  | cons c cs ih =>
    cases h : isTerminator c with
    | false => simp [splitIgnored, h, ih]
    | true => simp [splitIgnored, h]

theorem splitIgnored_append (inComment : Bool) (cs : List Char) :
    (splitIgnored inComment cs).1 ++ (splitIgnored inComment cs).2 = cs := by
  fun_induction splitIgnored inComment cs <;> simp_all

/-- Blanks that may separate dots in a fault. -/
def isGap (c : Char) : Bool := c == ' ' || c == '\t' || c == '\uFEFF'

/-- A spread, or stray dots; the first dot has been read. -/
def dots (cs : List Char) : Lexeme :=
  let gap := cs.takeWhile isGap
  match cs.dropWhile isGap with
  | '.' :: cs' =>
    let gap' := cs'.takeWhile isGap
    match cs'.dropWhile isGap with
    | '.' :: rest =>
      let taken := '.' :: (gap ++ '.' :: (gap' ++ ['.']))
      if gap.isEmpty && gap'.isEmpty then token (.punctuator .ellipsis) taken rest
      else fault (.dots (.three gap.isEmpty gap'.isEmpty)) taken rest
    | rest => fault (.dots (.two gap.isEmpty)) ('.' :: (gap ++ '.' :: gap')) rest
  | rest => fault (.dots .one) ('.' :: gap) rest

/-- A name, from its first character. -/
def name (c : Char) (cs : List Char) : Lexeme :=
  let taken := c :: cs.takeWhile isNameContinue
  token (.name (String.ofList taken)) taken (cs.dropWhile isNameContinue)

/-- Everything that looks like a part of a number. -/
def isNumberPart (c : Char) : Bool :=
  isLetter c || isDigit c || c == '_' || c == '.' || c == '+' || c == '-'

/-- A fraction at the head of a text, if there is one. -/
def fraction : List Char → Except NumberFault (List Char × List Char)
  | '.' :: cs =>
    match cs.takeWhile isDigit with
    | [] => .error .bareFraction
    | digits => .ok ('.' :: digits, cs.dropWhile isDigit)
  | cs => .ok ([], cs)

/-- A sign of an exponent. -/
def exponentSign : List Char → List Char × List Char
  | '+' :: cs => (['+'], cs)
  | '-' :: cs => (['-'], cs)
  | cs => ([], cs)

/-- An exponent at the head of a text, if there is one. -/
def exponent : List Char → Except NumberFault (List Char × List Char)
  | [] => .ok ([], [])
  | c :: cs =>
    if c == 'e' || c == 'E' then
      let (sign, cs') := exponentSign cs
      match cs'.takeWhile isDigit with
      | [] => .error .bareExponent
      | digits => .ok (c :: (sign ++ digits), cs'.dropWhile isDigit)
    else .ok ([], c :: cs)

/-- What follows the whole digits of a number: its fraction and exponent, and the rest. -/
def numberTail (cs : List Char) : Except NumberFault (List Char × List Char) := do
  let (places, cs) ← fraction cs
  let (power, cs) ← exponent cs
  let tail := places ++ power
  match cs with
  | c :: _ => if c == '.' || isNameStart c then throw (.trailing c (!tail.isEmpty)) else pure ()
  | [] => pure ()
  return (tail, cs)

/-- A number whose text `cs` is faulty: the fault is about all that looks like a part of it. -/
def faultyNumber (reason : NumberFault) (cs : List Char) : Lexeme :=
  let taken := cs.takeWhile isNumberPart
  fault (.number reason (String.ofList taken)) taken (cs.dropWhile isNumberPart)

/-- The minus sign of a number. -/
def minusSign : List Char → List Char × List Char
  | '-' :: cs => (['-'], cs)
  | cs => ([], cs)

/-- A number, from its sign or first digit. -/
def number (cs : List Char) : Lexeme :=
  let (sign, body) := minusSign cs
  match body.takeWhile isDigit with
  | [] => fault .loneMinus sign body
  | '0' :: _ :: _ => faultyNumber .leadingZero cs
  | digits =>
    match numberTail (body.dropWhile isDigit) with
    | .error reason => faultyNumber reason cs
    | .ok (tail, rest) =>
      let taken := sign ++ digits ++ tail
      let literal := String.ofList taken
      token (if tail.isEmpty then .int literal else .float literal) taken rest

/-- Control characters that may not stand in strings as they are. -/
def isBarred (c : Char) : Bool :=
  (c.toNat < 0x20 && !(c == '\t' || c == '\n' || c == '\r')) || c.toNat == 0x7F

/-- The characters of a string up to a quote, a line end or a barred character. A backslash takes
the next character along, unless that ends the line. -/
def stringBody : List Char → List Char × List Char
  | [] => ([], [])
  | ['\\'] => (['\\'], [])
  | '\\' :: c :: cs =>
    if isTerminator c then (['\\'], c :: cs)
    else
      let (body, rest) := stringBody cs
      ('\\' :: c :: body, rest)
  | c :: cs =>
    if c == '"' || isTerminator c || isBarred c then ([], c :: cs)
    else
      let (body, rest) := stringBody cs
      (c :: body, rest)

/-- A string, after its opening quote. -/
def string (cs : List Char) : Lexeme :=
  let (body, rest) := stringBody cs
  let taken := '"' :: body
  match rest with
  | [] => fault (.openString false) taken []
  | '"' :: rest => token (.string (String.ofList (taken ++ ['"']))) (taken ++ ['"']) rest
  | c :: rest =>
    if isTerminator c then fault (.openString true) taken (c :: rest)
    else ⟨taken, [c], rest, .error (.characterInString c)⟩

/-- The characters of a block string up to its closing quotes or a barred character. -/
def blockBody : List Char → List Char × List Char
  | '\\' :: '"' :: '"' :: '"' :: cs =>
    let (body, rest) := blockBody cs
    ('\\' :: '"' :: '"' :: '"' :: body, rest)
  | '"' :: '"' :: '"' :: cs => ([], '"' :: '"' :: '"' :: cs)
  | c :: cs =>
    if isBarred c then ([], c :: cs)
    else
      let (body, rest) := blockBody cs
      (c :: body, rest)
  | [] => ([], [])

/-- A block string, after its opening quotes. -/
def blockString (cs : List Char) : Lexeme :=
  let (body, rest) := blockBody cs
  let taken := '"' :: '"' :: '"' :: body
  match rest with
  | '"' :: '"' :: '"' :: rest =>
    let taken := taken ++ ['"', '"', '"']
    token (.blockString (String.ofList taken)) taken rest
  | [] => fault .openBlockString taken []
  | c :: rest => ⟨taken, [c], rest, .error (.characterInString c)⟩

/-- The marks of one character. -/
def mark? : Char → Option Punctuator
  | '!' => some .bang
  | '$' => some .dollar
  | '&' => some .ampersand
  | '(' => some .openParen
  | ')' => some .closeParen
  | ':' => some .colon
  | '=' => some .equals
  | '@' => some .atSign
  | '[' => some .openBracket
  | ']' => some .closeBracket
  | '{' => some .openBrace
  | '}' => some .closeBrace
  | '|' => some .pipe
  | _ => none

/-- A string in either notation, after its first quote. -/
def anyString : List Char → Lexeme
  | '"' :: '"' :: cs => blockString cs
  | cs => string cs

/-- The lexeme at the head of a text that does not start with something ignored. -/
def read (c : Char) (cs : List Char) : Lexeme :=
  match mark? c with
  | some mark => token (.punctuator mark) [c] cs
  | none =>
    if c == '.' then dots cs
    else if c == '"' then anyString cs
    else if isNameStart c then name c cs
    else if c == '-' || isDigit c then number (c :: cs)
    else fault (.character c) [c] cs

end Lexeme
end GraphQL
