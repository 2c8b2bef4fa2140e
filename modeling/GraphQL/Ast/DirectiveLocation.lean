import GraphQL.Text.Distance

/-! The places where a directive can be written. -/
namespace GraphQL

/-- A place where a directive can be written. -/
inductive DirectiveLocation where
  | query
  | mutation
  | subscription
  | field
  | fragmentDefinition
  | fragmentSpread
  | inlineFragment
  | variableDefinition
  | schema
  | scalar
  | object
  | fieldDefinition
  | argumentDefinition
  | interface
  | union
  | enum
  | enumValue
  | inputObject
  | inputFieldDefinition
  deriving DecidableEq

namespace DirectiveLocation

/-- All locations, those in executable definitions first. -/
def all : List DirectiveLocation :=
  [query, mutation, subscription, field, fragmentDefinition, fragmentSpread, inlineFragment,
    variableDefinition, schema, scalar, object, fieldDefinition, argumentDefinition, interface,
    union, enum, enumValue, inputObject, inputFieldDefinition]

/-- A location as it is written. -/
def name : DirectiveLocation → String
  | query => "QUERY"
  | mutation => "MUTATION"
  | subscription => "SUBSCRIPTION"
  | field => "FIELD"
  | fragmentDefinition => "FRAGMENT_DEFINITION"
  | fragmentSpread => "FRAGMENT_SPREAD"
  | inlineFragment => "INLINE_FRAGMENT"
  | variableDefinition => "VARIABLE_DEFINITION"
  | schema => "SCHEMA"
  | scalar => "SCALAR"
  | object => "OBJECT"
  | fieldDefinition => "FIELD_DEFINITION"
  | argumentDefinition => "ARGUMENT_DEFINITION"
  | interface => "INTERFACE"
  | union => "UNION"
  | enum => "ENUM"
  | enumValue => "ENUM_VALUE"
  | inputObject => "INPUT_OBJECT"
  | inputFieldDefinition => "INPUT_FIELD_DEFINITION"

/-- The location with a given name. -/
def ofName? (word : String) : Option DirectiveLocation := all.find? (·.name == word)

/-- Locations in operations and fragments, as against those in a type system. -/
def isExecutable : DirectiveLocation → Bool
  | query | mutation | subscription | field | fragmentDefinition | fragmentSpread | inlineFragment
  | variableDefinition => true
  | _ => false

/-- The location that a misspelt word probably stands for: the nearest one within three edits of the
word in capitals. The word is a name, so that all its letters are ASCII letters. -/
def suggestion? (word : String) : Option String :=
  Text.nearest? 3 (word.toList.map Char.toUpper) (all.map name)

@[simp] theorem ofName?_name (l : DirectiveLocation) : ofName? l.name = some l := by
  cases l <;> decide

end DirectiveLocation
end GraphQL
