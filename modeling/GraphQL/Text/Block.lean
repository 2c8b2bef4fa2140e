import GraphQL.Text.Quoted
import GraphQL.Text.Line

/-! Strings between triple quotes: their value is free of the indentation that all lines share. -/
namespace GraphQL.Text.Block

/-- The quotes at both ends. -/
def quotes : List Char := ['"', '"', '"']

/-- Each escaped triple quote becomes a plain one, from left to right. -/
def unescape : List Char → List Char
  | '\\' :: '"' :: '"' :: '"' :: cs => '"' :: '"' :: '"' :: unescape cs
  | c :: cs => c :: unescape cs
  | [] => []

/-- Spaces and tabs indent a line. -/
def isIndent (c : Char) : Bool := c == ' ' || c == '\t'

/-- How far a line is indented. -/
def indent (line : List Char) : Nat := (line.takeWhile isIndent).length

/-- A line of nothing but indentation. -/
def isBlankLine (line : List Char) : Bool := line.all isIndent

/-- The least indentation of the lines after the first that are not blank. -/
def commonIndent? (lines : List (List Char)) : Option Nat :=
  ((lines.drop 1).filter (!isBlankLine ·)).map indent |>.min?

/-- All lines but the first lose the common indentation. -/
def dedent : List (List Char) → List (List Char)
  | [] => []
  | first :: rest => first :: rest.map (List.drop ((commonIndent? (first :: rest)).getD 0))

/-- Blank lines at both ends go. -/
def trim (lines : List (List Char)) : List (List Char) :=
  ((lines.dropWhile isBlankLine).reverse.dropWhile isBlankLine).reverse

/-- The value of what stands between the quotes. -/
def decode (content : List Char) : List Char :=
  List.intercalate ['\n'] (trim (dedent (lines (unescape content))))

/-- The value of a literal, given with its quotes. -/
def value (literal : List Char) : Except StringFault (List Char) :=
  match List.isPrefixOf? quotes literal with
  | none => .error .unterminated
  | some rest =>
    match List.isSuffixOf? quotes rest with
    | none => .error .unterminated
    | some content => .ok (decode content)

example : decode "\n    a\n      b \\\"\"\" c\n\n  ".toList = "a\n  b \"\"\" c".toList := by
  decide

end GraphQL.Text.Block
