import GraphQL.Scanner

/-! Cursors on token streams, and the steps that parsers are made of. -/
namespace GraphQL

/-- A place in a token stream: the current token and those after it. At the end of the input the
current token stays. -/
structure Cursor where
  source : Source
  /-- How many levels of nesting the text may have. -/
  limit : Nat
  current : Token
  upcoming : List Token
  /-- The lexical error that cuts the stream off. -/
  failure : Option SyntaxError
  /-- The end of the token consumed last. -/
  lastEnd : Position

/-- A parser consumes tokens and returns what they stand for, or fails. -/
abbrev Parser := StateT Cursor (Except SyntaxError)

namespace Parser

/-- A cursor before the first token of a source. -/
def start (source : Source) (limit : Nat) : Cursor :=
  let stream := source.tokens
  ⟨source, limit, ⟨.startOfInput, .first, .first⟩, stream.tokens, stream.failure, .first⟩

/-- Moves to the next token and returns the one that was current. A lexical error there is the
parser's error. -/
def consume : Parser Token := fun c =>
  match c.upcoming with
  | t :: ts => .ok (c.current, { c with current := t, upcoming := ts, lastEnd := c.current.stop })
  | [] =>
    match c.failure with
    | some e => .error e
    | none => .ok (c.current, { c with lastEnd := c.current.stop })

def lookahead : Parser Token := fun c =>
  match c.upcoming with
  | t :: _ => .ok (t, c)
  | [] =>
    match c.failure with
    | some e => .error e
    | none => .ok (c.current, c)

def peek : Parser Token := fun c => .ok (c.current, c)

def fail (violation : Violation) (origin : Origin) : Parser α := fun _ =>
  .error ⟨violation, origin, []⟩

/-- Fails at a token that does not fit. -/
def unexpectedAt (t : Token) (expected : Option Expectation) : Parser α := fun c =>
  .error ⟨.unexpected expected t.kind, t.origin c.source, []⟩

/-- Fails at the current token. -/
def unexpected (expected : Option Expectation) : Parser α := fun c =>
  unexpectedAt c.current expected c

/-- Fails because the text is nested too deep. -/
def tooDeep : Parser α := fun c =>
  .error ⟨.nesting c.limit, c.current.origin c.source, []⟩

/-- Where the current token starts. -/
def here : Parser Position := fun c => .ok (c.current.start, c)

/-- What has been consumed since some position. -/
def spanFrom (start : Position) : Parser Origin := fun c => .ok (⟨c.source, start, c.lastEnd⟩, c)

def originOf (t : Token) : Parser Origin := fun c => .ok (t.origin c.source, c)

/-- Whether the current token is a mark. -/
def atMark (mark : Punctuator) : Parser Bool := fun c =>
  .ok (decide (c.current.kind = .punctuator mark), c)

/-- Whether the current token is a word. -/
def atKeyword (word : String) : Parser Bool := fun c => .ok (c.current.kind.isKeyword word, c)

/-- Consumes a mark if it is there. -/
def accept (mark : Punctuator) : Parser Bool := do
  if ← atMark mark then
    let _ ← consume
    return true
  else return false

/-- Consumes a word if it is there. -/
def acceptKeyword (word : String) : Parser Bool := do
  if ← atKeyword word then
    let _ ← consume
    return true
  else return false

/-- Consumes a mark that has to be there. -/
def expect (mark : Punctuator) : Parser Token := do
  if ← atMark mark then consume else unexpected (some (.mark mark))

/-- Consumes a word that has to be there. -/
def expectKeyword (word : String) : Parser Token := do
  if ← atKeyword word then consume else unexpected (some (.keyword word))

/-- The end of the input has to be here. -/
def expectEnd : Parser Unit := do
  let t ← peek
  if t.kind = .endOfInput then return () else unexpected (some .endOfInput)

end Parser
end GraphQL
