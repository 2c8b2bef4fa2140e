import GraphQL.Ast.TypeRef
import GraphQL.Ast.OperationKind
import GraphQL.Parser.Repetition
import GraphQL.Text.Decimal

/-! Parsers of names, values and types. The productions, here and in the modules after this one, are for
every monad in which they may run. Those of nested things take the number of levels that are left. -/
namespace GraphQL.Parser

def name : Parser Name := do
  let t ← peek
  match t.kind with
  | .name text =>
    let _ ← consume
    return ⟨some (← originOf t), text⟩
  | _ => unexpected (some .name)

/-- The words that a position of names reserves. -/
def reservedWords : ReservingRole → List String
  | .fragmentName => ["on"]
  | .enumValue => ["true", "false", "null"]

/-- A name other than the words that its position reserves. -/
def unreservedName (role : ReservingRole) : Parser Name := do
  let t ← peek
  let n ← name
  if n.value ∈ reservedWords role then fail (.reservedName n.value role) (← originOf t)
  else return n

/-- A variable: a dollar sign and a name. -/
def variableName : Parser Name := do
  let _ ← expect .dollar
  name

/-- A string of either notation, if there is one. -/
def optionalString : Parser (Option StringValue) := do
  let t ← peek
  match t.kind.stringValue? with
  | none => return none
  | some outcome =>
    let _ ← consume
    let origin ← originOf t
    match outcome with
    | .ok value =>
      let isBlock := match t.kind with
        | .blockString _ => true
        | _ => false
      return some ⟨some origin, value, isBlock⟩
    | .error fault => fail (.string fault) origin

/-- What a word stands for in the position of a value. -/
def wordValue (origin : Option Origin) (word : String) : Value :=
  if word = "true" then .boolean origin true
  else if word = "false" then .boolean origin false
  else if word = "null" then .null origin
  else .enum origin word

/-- A value without others in it. In a const position variables are refused. -/
def leafValue (position : Option ConstPosition) : Parser Value := do
  let t ← peek
  match t.kind with
  | .punctuator .dollar =>
    let n ← variableName
    let origin ← spanFrom t.start
    match position with
    | none => return .variable (some origin) n
    | some position => fail (.variable n.value position) origin
  | .int literal =>
    let _ ← consume
    let origin ← spanFrom t.start
    match (Text.Decimal.ofLiteral literal.toList).toInt32? with
    | some value => return .int (some origin) value
    | none => fail (.intRange literal) origin
  | .float literal =>
    let _ ← consume
    let origin ← spanFrom t.start
    match (Text.Decimal.ofLiteral literal.toList).toFloat? with
    | some value => return .float (some origin) value
    | none => fail (.floatRange literal) origin
  | .string _ | .blockString _ =>
    match ← optionalString with
    | some s => return .string s
    | none => unexpected (some .value)
  | .name word =>
    let _ ← consume
    return wordValue (some (← spanFrom t.start)) word
  | _ => unexpected (some .value)

def namedType : Parser NamedType := do
  let n ← name
  return ⟨n.origin, n⟩

variable {m : Type → Type} [Monad m] [MonadLiftT Parser m] [Parsing m]

/-- A field of an object, given the parser of values. -/
def objectField (value : m Value) : m ObjectField := do
  let start ← here
  let n ← name
  let _ ← expect .colon
  let v ← value
  return ⟨some (← spanFrom start), n, v⟩

/-- A value, given the parser of the values in it. -/
def valueWith (position : Option ConstPosition) (inner : m Value) : m Value := do
  let t ← peek
  match t.kind with
  | .punctuator .openBracket =>
    let values ← any .openBracket .closeBracket inner
    return .list (some (← spanFrom t.start)) values
  | .punctuator .openBrace =>
    let fields ← any .openBrace .closeBrace (objectField inner)
    return .object (some (← spanFrom t.start)) fields
  | _ => leafValue position

/-- A value of at most so many levels. -/
def value (position : Option ConstPosition) : Nat → m Value
  | 0 => exhausted
  | levels + 1 => nested (valueWith position (value position levels))

/-- A type, given the parser of the elements of lists. -/
def typeRefWith (element : m TypeRef) : m TypeRef := do
  let start ← here
  let bare ←
    if ← accept .openBracket then do
      let e ← element
      let _ ← expect .closeBracket
      pure (NullableType.list (some (← spanFrom start)) e)
    else NullableType.named <$> namedType
  if ← accept .bang then return .nonNull (some (← spanFrom start)) bare
  else return .nullable bare

/-- A type with at most so many lists in each other. -/
def typeRef : Nat → m TypeRef
  | 0 => typeRefWith exhausted
  | levels + 1 => typeRefWith (nested (typeRef levels))

end GraphQL.Parser
