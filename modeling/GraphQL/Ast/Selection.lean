import GraphQL.Ast.TypeRef

/-! Directives and selections. -/
namespace GraphQL

/-- A value given for an argument. -/
structure Argument where
  origin : Option Origin
  name : Name
  value : Value

/-- A directive that is applied to something. -/
structure Directive where
  origin : Option Origin
  name : Name
  arguments : List Argument

/-- A fragment in the place of the selections that it is defined as. -/
structure FragmentSpread where
  origin : Option Origin
  name : Name
  directives : List Directive

mutual

/-- One of the things that a selection set asks for. -/
inductive Selection where
  | field (field : Field)
  | spread (spread : FragmentSpread)
  | inlineFragment (fragment : InlineFragment)

/-- A field, under an alias or its own name, with selections in it if it has any. -/
structure Field where
  origin : Option Origin
  aliasName : Option Name
  name : Name
  arguments : List Argument
  directives : List Directive
  selectionSet : Option SelectionSet

/-- Selections for one type, or for whatever type is there. -/
structure InlineFragment where
  origin : Option Origin
  typeCondition : Option NamedType
  directives : List Directive
  selectionSet : SelectionSet

/-- Selections in braces. -/
structure SelectionSet where
  origin : Option Origin
  selections : List Selection

end

/-- The name under which a field is answered. -/
def Field.responseKey (f : Field) : String := (f.aliasName.getD f.name).value

def Selection.directives : Selection → List Directive
  | .field f => f.directives
  | .spread s => s.directives
  | .inlineFragment f => f.directives

end GraphQL
