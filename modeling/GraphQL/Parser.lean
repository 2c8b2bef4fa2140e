import GraphQL.Parser.TypeSystem

/-! Parsing: from sources to documents, values and types. -/
namespace GraphQL

/-- How many values, selection sets and list types a text may have in each other. -/
def nestingLimit : Nat := 64

namespace Parser

/-- Runs a parser on a source, from its first token. -/
def run {α : Type} (p : Parser α) (source : Source) (limit : Nat) : Except SyntaxError α :=
  match (do let _ ← consume; p : Parser α) (start source limit) with
  | .error e => .error e
  | .ok (a, _) => .ok a

/-- Something that makes up the whole input. -/
def alone {m : Type → Type} [Monad m] [MonadLiftT Parser m] {α : Type} (p : m α) : m α := do
  let a ← p
  expectEnd
  return a

end Parser

namespace Source

/-- Reads a document within a limit of nesting. -/
def documentWithin (limit : Nat) (s : Source) : Except SyntaxError Document :=
  Parser.run (Parser.document limit) s limit

/-- Reads a value within a limit of nesting. -/
def valueWithin (limit : Nat) (s : Source) : Except SyntaxError Value :=
  Parser.run (Parser.alone (Parser.value none limit)) s limit

/-- Reads a value without variables within a limit of nesting. -/
def constValueWithin (limit : Nat) (s : Source) : Except SyntaxError Value :=
  Parser.run (Parser.alone (Parser.value (some .constValue) limit)) s limit

/-- Reads a type within a limit of nesting. -/
def typeRefWithin (limit : Nat) (s : Source) : Except SyntaxError TypeRef :=
  Parser.run (Parser.alone (Parser.typeRef limit)) s limit

def parseDocument (s : Source) : Except SyntaxError Document := s.documentWithin nestingLimit

/-- Reads a value, which may have variables. -/
def parseValue (s : Source) : Except SyntaxError Value := s.valueWithin nestingLimit

/-- Reads a value that may not have variables. -/
def parseConstValue (s : Source) : Except SyntaxError Value := s.constValueWithin nestingLimit

def parseTypeRef (s : Source) : Except SyntaxError TypeRef := s.typeRefWithin nestingLimit

end Source
end GraphQL
