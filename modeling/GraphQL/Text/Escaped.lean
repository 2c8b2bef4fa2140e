import GraphQL.Text.Combining
import GraphQL.Text.Invisible

/-! Quoted text with escapes for all that cannot be seen on its own. -/
namespace GraphQL.Text

/-- Letters without a shape: they fill the place of a letter in a Hangul syllable. -/
def isFiller (c : Char) : Bool :=
  c == '\u115f' || c == '\u1160' || c == '\u3164' || c == '\uffa0'

/-- The halfwidth sound marks extend the letter before them, but stand beside it. -/
def isStandingMark (c : Char) : Bool := c == '\uff9e' || c == '\uff9f'

/-- Characters that can be seen on their own. -/
def isVisible (c : Char) : Bool :=
  !inRanges invisibleRanges c && !isFiller c && (!inRanges combiningRanges c || isStandingMark c)

/-- A character as it stands in a quoted text. -/
def escapeChar (c : Char) : String :=
  match c with
  | '\x00' => "\\0"
  | '\t' => "\\t"
  | '\n' => "\\n"
  | '\r' => "\\r"
  | '"' => "\\\""
  | '\\' => "\\\\"
  | c =>
    if isVisible c then String.singleton c
    else "\\u\x7b" ++ String.ofList (Nat.toDigits 16 c.toNat) ++ "\x7d"

/-- A text in quotes. -/
def quote (s : String) : String :=
  "\"" ++ String.join (s.toList.map escapeChar) ++ "\""

example : quote "a 'b'\n" = "\"a 'b'\\n\"" := by decide +kernel
example : quote "\u3164e\u0301" = "\"\\u\x7b3164\x7de\\u\x7b301\x7d\"" := by decide +kernel

end GraphQL.Text
