import GraphQL.Parser

/-! The productions without what makes them end by construction: loops go on until their own conditions
end them, and productions that nest call each other. What ends them instead are rations, of rounds for each
loop and of calls in one another. -/
namespace GraphQL

/-- How many rounds each loop may have, and how many levels of nesting are left. -/
structure Ration where
  rounds : Nat
  levels : Nat

/-- A parser that has a ration. If the rounds do not last, it comes to nothing. -/
abbrev Rationed := ReaderT Ration (StateT Cursor (ExceptT SyntaxError Option))

/-- Parsers without loops need no ration. -/
instance : MonadLift Parser Rationed := ⟨fun p _ c => some (p c)⟩

namespace Rationed

open GraphQL.Parser

variable {α : Type}

/-- The ration is spent. -/
def spent : Rationed α := fun _ _ => none

/-- Runs a step until it returns nothing, for so many rounds at most. -/
def repeatFor (step : Rationed (Option α)) : Nat → Rationed (List α)
  | 0 => spent
  | rounds + 1 => do
    match ← step with
    | none => return []
    | some a => return a :: (← repeatFor step rounds)

def inside (mark : Punctuator) (opened : Origin) (p : Rationed α) : Rationed α := fun ration c =>
  match p ration c with
  | some (.error e) => some (.error (e.within mark opened))
  | result => result

/-- Runs a parser with one level less, unless none is left. -/
def deeper (p : Rationed α) : Rationed α := fun ration c =>
  match ration.levels with
  | 0 => some (tooDeep c)
  | levels + 1 => p { ration with levels } c

instance : Parsing Rationed where
  repeated step := do repeatFor step (← read).rounds
  inside := inside
  nested := deeper
  exhausted := spent

/-- Runs a parser on a source, from its first token, within a limit of nesting and with a ration of
rounds. -/
def run (p : Rationed α) (source : Source) (limit rounds : Nat) : Option (Except SyntaxError α) :=
  match (do let _ ← consume; p : Rationed α) ⟨rounds, limit⟩ (start source limit) with
  | none => none
  | some (.error e) => some (.error e)
  | some (.ok (a, _)) => some (.ok a)

end Rationed

namespace Source

/-- Reads a document within a limit of nesting and with rations of calls and rounds. -/
def rationedDocument (calls rounds limit : Nat) (s : Source) : Option (Except SyntaxError Document) :=
  Rationed.run (Parser.document calls) s limit rounds

def rationedValue (calls rounds limit : Nat) (s : Source) : Option (Except SyntaxError Value) :=
  Rationed.run (Parser.alone (Parser.value none calls)) s limit rounds

def rationedConstValue (calls rounds limit : Nat) (s : Source) : Option (Except SyntaxError Value) :=
  Rationed.run (Parser.alone (Parser.value (some .constValue) calls)) s limit rounds

def rationedTypeRef (calls rounds limit : Nat) (s : Source) : Option (Except SyntaxError TypeRef) :=
  Rationed.run (Parser.alone (Parser.typeRef calls)) s limit rounds

end Source
end GraphQL
