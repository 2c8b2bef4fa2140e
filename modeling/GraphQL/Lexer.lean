import GraphQL.Scanner

/-! A cursor on the tokens of a source, with at most one token read ahead. -/
namespace GraphQL

/-- The current token, the one after it if that has been asked for, and the end of the token
consumed last. -/
structure Lexer where
  scanner : Scanner
  current : Token
  ahead : Option Token
  lastEnd : Position

namespace Lexer

/-- A cursor before the first token of a source. -/
def start (source : Source) : Lexer :=
  ⟨Scanner.start source, ⟨.startOfInput, .first, .first⟩, none, .first⟩

/-- Fetches the token after the current one; a token read ahead comes first. -/
def fetch (l : Lexer) : Except SyntaxError Token × Lexer :=
  match l.ahead with
  | some t => (.ok t, { l with ahead := none })
  | none =>
    let (result, scanner) := l.scanner.next
    (result, { l with scanner })

/-- Moves to the next token and returns the one that was current. After an error the current token
stays. -/
def consume (l : Lexer) : Except SyntaxError Token × Lexer :=
  match l.fetch with
  | (.error e, l) => (.error e, l)
  | (.ok t, l) => (.ok l.current, { l with current := t, lastEnd := l.current.stop })

/-- Moves to the next token and returns that. -/
def advance (l : Lexer) : Except SyntaxError Token × Lexer :=
  match l.consume with
  | (.error e, l) => (.error e, l)
  | (.ok _, l) => (.ok l.current, l)

/-- The token after the current one; the cursor stays where it is. -/
def lookahead (l : Lexer) : Except SyntaxError Token × Lexer :=
  match l.fetch with
  | (.error e, l) => (.error e, l)
  | (.ok t, l) => (.ok t, { l with ahead := some t })

end Lexer
end GraphQL
