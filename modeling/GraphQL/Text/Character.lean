/-! Classes of characters, and how messages show a character. -/
namespace GraphQL.Text

/-- A letter of the Latin alphabet without marks. -/
def isLetter (c : Char) : Bool := ('a' ≤ c && c ≤ 'z') || ('A' ≤ c && c ≤ 'Z')

/-- A decimal digit, `0` to `9`. -/
def isDigit (c : Char) : Bool := '0' ≤ c && c ≤ '9'

/-- The characters that a name can start with. -/
def isNameStart (c : Char) : Bool := c == '_' || isLetter c

/-- The characters that a name can go on with. -/
def isNameContinue (c : Char) : Bool := isNameStart c || isDigit c

/-- Control characters: the general category Cc. -/
def isControl (c : Char) : Bool := c.toNat < 0x20 || (0x7F ≤ c.toNat && c.toNat ≤ 0x9F)

/-- Blank characters: the property White_Space. -/
def isBlank (c : Char) : Bool :=
  let n := c.toNat
  (0x9 ≤ n && n ≤ 0xD) || n == 0x20 || n == 0x85 || n == 0xA0 || n == 0x1680 ||
    (0x2000 ≤ n && n ≤ 0x200A) || n == 0x2028 || n == 0x2029 || n == 0x202F || n == 0x205F ||
    n == 0x3000

/-- Names of characters that are hard to see. -/
def invisibleName? (c : Char) : Option String :=
  let n := c.toNat
  if n == 0x0 then some "NULL"
  else if n == 0x7 then some "BELL"
  else if n == 0x8 then some "BACKSPACE"
  else if n == 0xB then some "VERTICAL TAB"
  else if n == 0xC then some "FORM FEED"
  else if n == 0x1B then some "ESCAPE"
  else if n == 0x7F then some "DELETE"
  else if n == 0x85 then some "NEXT LINE"
  else if n == 0xA0 then some "NO-BREAK SPACE"
  else if n == 0xAD then some "SOFT HYPHEN"
  else if 0x2000 ≤ n && n ≤ 0x200A then some "TYPOGRAPHIC SPACE"
  else if n == 0x200B then some "ZERO WIDTH SPACE"
  else if n == 0x200C then some "ZERO WIDTH NON-JOINER"
  else if n == 0x200D then some "ZERO WIDTH JOINER"
  else if n == 0x200E then some "LEFT-TO-RIGHT MARK"
  else if n == 0x200F then some "RIGHT-TO-LEFT MARK"
  else if n == 0x2028 then some "LINE SEPARATOR"
  else if n == 0x2029 then some "PARAGRAPH SEPARATOR"
  else if 0x202A ≤ n && n ≤ 0x202E then some "BIDIRECTIONAL FORMATTING"
  else if n == 0x2060 then some "WORD JOINER"
  else if n == 0x3000 then some "IDEOGRAPHIC SPACE"
  else if n == 0xFFFE || n == 0xFFFF then some "NONCHARACTER"
  else none

/-- The upper-case hexadecimal digits of `n`, filled up with zeros to four. -/
def hex4 (n : Nat) : String :=
  let digits := (Nat.toDigits 16 n).map Char.toUpper
  String.ofList (List.replicate (4 - digits.length) '0' ++ digits)

/-- A character as messages show it: quoted if it can be seen, by its code point otherwise. -/
def describe (c : Char) : String :=
  let code := hex4 c.toNat
  match invisibleName? c with
  | some name => s!"U+{code} ({name})"
  | none => if isControl c || (isBlank c && c != ' ') then s!"U+{code}" else s!"`{c}`"

end GraphQL.Text
