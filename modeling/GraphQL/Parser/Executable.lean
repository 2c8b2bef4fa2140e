import GraphQL.Ast.Definition
import GraphQL.Parser.Value

/-! Parsers of directives, selections, operations and fragments. -/
namespace GraphQL.Parser

def operationKind : Parser OperationKind := do
  let t ← peek
  let kind := match t.kind with
    | .name word => OperationKind.ofKeyword? word
    | _ => none
  match kind with
  | some k =>
    let _ ← consume
    return k
  | none => unexpected (some .operationKind)

variable {m : Type → Type} [Monad m] [MonadLiftT Parser m] [Parsing m]

/-- An argument, given the parser of values. -/
def argument (value : m Value) : m Argument := do
  let start ← here
  let n ← name
  let _ ← expect .colon
  let v ← value
  return ⟨some (← spanFrom start), n, v⟩

def arguments (value : m Value) : m (List Argument) :=
  optionalMany .openParen .closeParen (argument value)

/-- A directive, given the parser of values. -/
def directive (value : m Value) : m Directive := do
  let start ← here
  let _ ← expect .atSign
  let n ← name
  let args ← arguments value
  return ⟨some (← spanFrom start), n, args⟩

def directives (value : m Value) : m (List Directive) :=
  whileAt .atSign (directive value)

/-- A field, given the parsers of values and of selections in it. -/
def field (value : m Value) (selections : m SelectionSet) : m Field := do
  let start ← here
  let first ← name
  let (aliasName, n) ←
    if ← accept .colon then do pure (some first, ← name) else pure (none, first)
  let args ← arguments value
  let ds ← directives value
  let inner ← if ← atMark .openBrace then some <$> selections else pure none
  return ⟨some (← spanFrom start), aliasName, n, args, ds, inner⟩

/-- A spread or an inline fragment. A word after the dots is the name of a fragment, unless it is
`on`. -/
def fragmentSelection (value : m Value) (selections : m SelectionSet) : m Selection := do
  let start ← here
  let _ ← expect .ellipsis
  let conditioned ← atKeyword "on"
  let t ← peek
  if !conditioned && t.kind.isName then
    let n ← name
    let ds ← directives value
    return .spread ⟨some (← spanFrom start), n, ds⟩
  else
    let condition ← if conditioned then do
        let _ ← consume
        some <$> namedType
      else pure none
    let ds ← directives value
    let inner ← selections
    return .inlineFragment ⟨some (← spanFrom start), condition, ds, inner⟩

/-- A selection, given the parsers of values and of selections in it. -/
def selection (value : m Value) (selections : m SelectionSet) : m Selection := do
  if ← atMark .ellipsis then fragmentSelection value selections
  else .field <$> field value selections

/-- A selection set with at most so many levels of selection sets and values in each other. -/
def selectionSet : Nat → m SelectionSet
  | 0 => exhausted
  | levels + 1 => nested do
    let start ← here
    let items ← many .openBrace .closeBrace (selection (value none levels) (selectionSet levels))
    return ⟨some (← spanFrom start), items⟩

/-- A value after an equals sign, if there is one. -/
def optionalDefault (position : ConstPosition) (levels : Nat) : m (Option Value) := do
  if ← accept .equals then some <$> value (some position) levels else return none

/-- Directives whose arguments have to be constant. -/
def constDirectives (levels : Nat) : m (List Directive) :=
  directives (value (some .directiveArgument) levels)

def variableDefinition (levels : Nat) : m VariableDefinition := do
  let start ← here
  let n ← variableName
  let _ ← expect .colon
  let type ← typeRef levels
  let default ← optionalDefault .variableDefault levels
  let ds ← constDirectives levels
  return ⟨some (← spanFrom start), n, type, default, ds⟩

/-- An operation. One that starts with a brace is a query without a name. -/
def operation (levels : Nat) : m OperationDefinition := do
  let start ← here
  if ← atMark .openBrace then
    let inner ← selectionSet levels
    return ⟨some (← spanFrom start), .query, none, [], [], inner⟩
  else
    let kind ← operationKind
    let t ← peek
    let n ← if t.kind.isName then some <$> (name : m Name) else pure none
    let variableDefinitions ← optionalMany .openParen .closeParen (variableDefinition levels)
    let ds ← directives (value none levels)
    let inner ← selectionSet levels
    return ⟨some (← spanFrom start), kind, n, variableDefinitions, ds, inner⟩

def fragment (levels : Nat) : m FragmentDefinition := do
  let start ← here
  let _ ← expectKeyword "fragment"
  let n ← unreservedName .fragmentName
  let _ ← expectKeyword "on"
  let condition ← namedType
  let ds ← directives (value none levels)
  let inner ← selectionSet levels
  return ⟨some (← spanFrom start), n, condition, ds, inner⟩

end GraphQL.Parser
