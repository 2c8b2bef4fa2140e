import GraphQL.Parser.Cursor

/-! Lists of things in a token stream. One loop serves them all; it is bounded by the tokens left,
because every round consumes one. The productions of the grammar leave open how that loop goes on and what
it means to nest. -/
namespace GraphQL

/-- What a monad has to say for productions to run in it, besides taking the steps of parsers. -/
class Parsing (m : Type → Type) where
  /-- Runs a step until it returns nothing, and collects what it returns. -/
  repeated {α : Type} (step : m (Option α)) : m (List α)
  /-- Parses what stands inside an opening mark. -/
  inside {α : Type} (mark : Punctuator) (opened : Origin) (p : m α) : m α
  /-- Parses what is one level further down. -/
  nested {α : Type} (p : m α) : m α
  /-- Stands for what would be more levels further down than are provided for. -/
  exhausted {α : Type} : m α

export Parsing (repeated nested exhausted)

namespace Parser

variable {α : Type}

/-- Runs a step until it returns nothing, and collects what it returns. A round that consumes
nothing is the last. -/
def collect (step : Parser (Option α)) : Parser (List α) := fun c =>
  match step c with
  | .error e => .error e
  | .ok (none, c') => .ok ([], c')
  | .ok (some a, c') =>
    if c'.upcoming.length < c.upcoming.length then
      match collect step c' with
      | .error e => .error e
      | .ok (as, c'') => .ok (a :: as, c'')
    else .ok ([a], c')
termination_by c => c.upcoming.length

/-- Parses what stands inside an opening mark. If the text ends there, the error tells so. -/
def inside (mark : Punctuator) (opened : Origin) (p : Parser α) : Parser α := fun c =>
  match p c with
  | .error e => .error (e.within mark opened)
  | .ok r => .ok r

instance : Parsing Parser where
  repeated := collect
  inside := inside
  nested p := p
  exhausted := tooDeep

variable {m : Type → Type} [Monad m] [MonadLiftT Parser m] [Parsing m]

/-- Items up to a closing mark, which is consumed. -/
def itemsUntil (close : Punctuator) (item : m α) : m (List α) :=
  repeated do
    if ← accept close then return none
    else return some (← item)

/-- Any number of items between marks. -/
def any (opening close : Punctuator) (item : m α) : m (List α) := do
  let t ← expect opening
  let opened ← originOf t
  Parsing.inside opening opened (itemsUntil close item)

/-- One item or more between marks. -/
def many (opening close : Punctuator) (item : m α) : m (List α) := do
  let t ← expect opening
  let opened ← originOf t
  Parsing.inside opening opened do
    let first ← item
    let rest ← itemsUntil close item
    return first :: rest

/-- One item or more between marks, or nothing at all. -/
def optionalMany (opening close : Punctuator) (item : m α) : m (List α) := do
  if ← atMark opening then many opening close item else return []

/-- Items that each have a mark in front. -/
def markedItems (mark : Punctuator) (item : m α) : m (List α) :=
  repeated do
    if ← accept mark then return some (← item)
    else return none

/-- One item or more with a mark between them; the same mark may stand in front. -/
def separated (mark : Punctuator) (item : m α) : m (List α) := do
  let _ ← accept mark
  let first ← item
  let rest ← markedItems mark item
  return first :: rest

/-- Items as long as each starts with a mark. -/
def whileAt (mark : Punctuator) (item : m α) : m (List α) :=
  repeated do
    if ← atMark mark then return some (← item)
    else return none

end Parser
end GraphQL
