import GraphQL.Ast.Definition

/-! Types as a schema knows them. -/
namespace GraphQL

/-- Scalars that need no definition. -/
inductive BuiltInScalar where
  | boolean
  | float
  | id
  | int
  | string
  deriving DecidableEq

namespace BuiltInScalar

/-- All built-in scalars. -/
def all : List BuiltInScalar := [boolean, float, id, int, string]

/-- The name of a built-in scalar. -/
def name : BuiltInScalar → String
  | boolean => "Boolean"
  | float => "Float"
  | id => "ID"
  | int => "Int"
  | string => "String"

/-- The built-in scalar of a given name. -/
def ofName? (word : String) : Option BuiltInScalar := all.find? (·.name == word)

@[simp] theorem ofName?_name (s : BuiltInScalar) : ofName? s.name = some s := by
  cases s <;> decide

end BuiltInScalar

/-- A type with a name: built in, or defined. -/
inductive KnownType where
  | builtIn (scalar : BuiltInScalar)
  | defined (definition : TypeDefinition)

namespace KnownType

/-- The name of a type. -/
def name : KnownType → String
  | builtIn scalar => scalar.name
  | defined definition => definition.name.value

/-- The definition of a type, unless it is built in. -/
def definition? : KnownType → Option TypeDefinition
  | builtIn _ => none
  | defined definition => some definition

/-- Types without anything to select in them. -/
def isLeaf : KnownType → Bool
  | builtIn _ => true
  | defined definition => definition.body.isLeaf

/-- Types of one schema are the same if their names are. -/
instance : BEq KnownType := ⟨fun a b => a.name == b.name⟩

end KnownType

/-- A type with all its lists and non-null marks, whose name is known. -/
inductive ResolvedType where
  | named (type : KnownType)
  | list (element : ResolvedType)
  | nonNull (type : ResolvedType)

namespace ResolvedType

/-- The named type inside all lists and marks. -/
def core : ResolvedType → KnownType
  | named t => t
  | list t | nonNull t => t.core

/-- The type without the non-null mark on it. -/
def nullable : ResolvedType → ResolvedType
  | nonNull t => t
  | t => t

/-- Types marked as non-null. -/
def isNonNull : ResolvedType → Bool
  | nonNull _ => true
  | _ => false

/-- Lists, marked as non-null or not. -/
def isList (t : ResolvedType) : Bool :=
  match t.nullable with
  | list _ => true
  | _ => false

def display : ResolvedType → String
  | named t => t.name
  | list t => "[" ++ t.display ++ "]"
  | nonNull t => t.display ++ "!"

/-- Equality of types of one schema. -/
def beq : ResolvedType → ResolvedType → Bool
  | named a, named b => a == b
  | list a, list b => a.beq b
  | nonNull a, nonNull b => a.beq b
  | _, _ => false

instance : BEq ResolvedType := ⟨beq⟩

end ResolvedType
end GraphQL
