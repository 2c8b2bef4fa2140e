import GraphQL.Ast.Value

/-! References to types. A non-null mark never stands on another one: the types that it can mark
form a type of their own. -/
namespace GraphQL

structure NamedType where
  origin : Option Origin
  name : Name
  deriving DecidableEq

mutual

/-- A reference to a type that admits null: a name, or a list of some type. -/
inductive NullableType where
  | named (type : NamedType)
  | list (origin : Option Origin) (element : TypeRef)

/-- A reference to a type. -/
inductive TypeRef where
  | nullable (type : NullableType)
  | nonNull (origin : Option Origin) (type : NullableType)

end

namespace TypeRef

/-- The type under a non-null mark, or the whole type if it has none. -/
def bare : TypeRef → NullableType
  | nullable t | nonNull _ t => t

/-- Types marked as non-null. -/
def isNonNull : TypeRef → Bool
  | nullable _ => false
  | nonNull _ _ => true

end TypeRef

mutual

/-- The named type inside all lists. -/
def NullableType.core : NullableType → NamedType
  | .named t => t
  | .list _ e => e.core

/-- The named type inside all lists and marks. -/
def TypeRef.core : TypeRef → NamedType
  | .nullable t => t.core
  | .nonNull _ t => t.core

end

mutual

def NullableType.display : NullableType → String
  | .named t => t.name.value
  | .list _ e => "[" ++ e.display ++ "]"

def TypeRef.display : TypeRef → String
  | .nullable t => t.display
  | .nonNull _ t => t.display ++ "!"

end

def NullableType.origin? : NullableType → Option Origin
  | .named t => t.origin
  | .list o _ => o

def TypeRef.origin? : TypeRef → Option Origin
  | .nullable t => t.origin?
  | .nonNull o _ => o

/-- Why a non-null mark is refused: the type in text has one already. -/
structure NestedNonNull where
  inner : String
  deriving DecidableEq

def NestedNonNull.message (e : NestedNonNull) : String :=
  s!"a non-null type cannot wrap another non-null type (`{e.inner}!`)"

def TypeRef.mark? (origin : Option Origin) : TypeRef → Except NestedNonNull TypeRef
  | .nullable t => .ok (.nonNull origin t)
  | .nonNull o t => .error ⟨(TypeRef.nonNull o t).display⟩

end GraphQL
