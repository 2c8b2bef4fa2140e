import GraphQL.Parser

/-! The productions with one counter of nesting that calls raise and lower, in place of levels that are
passed down. The counter survives errors. -/
namespace GraphQL

/-- The counter of nesting, with a record of its past. -/
structure Register where
  depth : Nat
  /-- The greatest depth so far. -/
  peak : Nat
  /-- The depths before and after each guarded call that has ended. -/
  calls : List (Nat × Nat)

namespace Register

def zero : Register := ⟨0, 0, []⟩

/-- One level down. -/
def enter (r : Register) : Register :=
  { r with depth := r.depth + 1, peak := max r.peak (r.depth + 1) }

/-- One level up again, where the call began at some depth. -/
def leave (before : Nat) (r : Register) : Register :=
  { r with depth := r.depth - 1, calls := r.calls ++ [(before, r.depth - 1)] }

end Register

/-- A parser with a counter, which is there after an error too. -/
abbrev Metered := StateT Cursor (ExceptT SyntaxError (StateM Register))

/-- Parsers without nesting leave the counter alone. -/
instance : MonadLift Parser Metered := ⟨fun p c r => (p c, r)⟩

namespace Metered

open GraphQL.Parser

variable {α : Type}

/-- Runs a parser one level down, unless the limit is reached. Afterwards the counter goes up again,
whether the parser fails or not. -/
def guarded (p : Metered α) : Metered α := fun c r =>
  if c.limit ≤ r.depth then (tooDeep c, r)
  else
    let (result, r') := p c r.enter
    (result, r'.leave r.depth)

def collect (step : Metered (Option α)) : Metered (List α) := fun c r =>
  match step c r with
  | (.error e, r') => (.error e, r')
  | (.ok (none, c'), r') => (.ok ([], c'), r')
  | (.ok (some a, c'), r') =>
    if c'.upcoming.length < c.upcoming.length then
      match collect step c' r' with
      | (.error e, r'') => (.error e, r'')
      | (.ok (as, c''), r'') => (.ok (a :: as, c''), r'')
    else (.ok ([a], c'), r')
termination_by c => c.upcoming.length

def inside (mark : Punctuator) (opened : Origin) (p : Metered α) : Metered α := fun c r =>
  match p c r with
  | (.error e, r') => (.error (e.within mark opened), r')
  | (.ok result, r') => (.ok result, r')

instance : Parsing Metered where
  repeated := collect
  inside := inside
  nested := guarded
  exhausted := tooDeep

/-- Runs a parser on a source, from its first token and with the counter at zero. -/
def run (p : Metered α) (source : Source) (limit : Nat) : Except SyntaxError α × Register :=
  match (do let _ ← consume; p : Metered α) (start source limit) .zero with
  | (.error e, r) => (.error e, r)
  | (.ok (a, _), r) => (.ok a, r)

end Metered

namespace Source

/-- Reads a document with a counter. Only so many calls in one another are provided for, but the limit
stops them first if it is lower. -/
def countedDocument (calls limit : Nat) (s : Source) : Except SyntaxError Document × Register :=
  Metered.run (Parser.document calls) s limit

def countedValue (calls limit : Nat) (s : Source) : Except SyntaxError Value × Register :=
  Metered.run (Parser.alone (Parser.value none calls)) s limit

def countedConstValue (calls limit : Nat) (s : Source) : Except SyntaxError Value × Register :=
  Metered.run (Parser.alone (Parser.value (some .constValue) calls)) s limit

def countedTypeRef (calls limit : Nat) (s : Source) : Except SyntaxError TypeRef × Register :=
  Metered.run (Parser.alone (Parser.typeRef calls)) s limit

end Source
end GraphQL
