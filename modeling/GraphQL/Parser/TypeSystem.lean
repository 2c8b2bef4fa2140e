import GraphQL.Parser.Executable

/-! Parsers of schemas, types and directives, and of extensions. -/
namespace GraphQL

/-- What a definition starts with. -/
inductive DefinitionKeyword where
  | operation (kind : OperationKind)
  | fragment
  | schema
  | directive
  | extend
  | type (form : TypeForm)
  deriving DecidableEq

namespace DefinitionKeyword

def all : List DefinitionKeyword :=
  [operation .query, operation .mutation, operation .subscription, fragment, schema, directive,
    extend] ++ TypeForm.all.map type

def text : DefinitionKeyword → String
  | operation kind => kind.keyword
  | fragment => "fragment"
  | schema => "schema"
  | directive => "directive"
  | extend => "extend"
  | type form => form.keyword

/-- The keyword that a token is, if it is one. -/
def ofToken? : TokenKind → Option DefinitionKeyword
  | .name word => all.find? (·.text == word)
  | _ => none

/-- Definitions of this sort may have a description. -/
def isDescribable : DefinitionKeyword → Bool
  | schema | directive | type _ => true
  | _ => false

end DefinitionKeyword

namespace Parser

def rootType : Parser RootType := do
  let start ← here
  let kind ← operationKind
  let _ ← expect .colon
  let type ← namedType
  return ⟨some (← spanFrom start), kind, type⟩

/-- The name of a place where directives may be applied. -/
def directiveLocation : Parser Name := do
  let t ← peek
  let n ← name
  match DirectiveLocation.ofName? n.value with
  | some _ => return n
  | none => fail (.unknownLocation n.value) (← originOf t)

variable {m : Type → Type} [Monad m] [MonadLiftT Parser m] [Parsing m]

/-- Names of interfaces after `implements`. -/
def interfaces : m (List NamedType) := do
  if ← acceptKeyword "implements" then separated .ampersand (namedType : m NamedType) else return []

/-- Names of member types after an equals sign. -/
def members : m (List NamedType) := do
  if ← accept .equals then separated .pipe (namedType : m NamedType) else return []

def inputDefinition (levels : Nat) : m InputDefinition := do
  let start ← here
  let description ← optionalString
  let n ← name
  let _ ← expect .colon
  let type ← typeRef levels
  let default ← optionalDefault .inputDefault levels
  let ds ← constDirectives levels
  return ⟨some (← spanFrom start), description, n, type, default, ds⟩

def argumentDefinitions (levels : Nat) : m (List InputDefinition) :=
  optionalMany .openParen .closeParen (inputDefinition levels)

def fieldDefinition (levels : Nat) : m FieldDefinition := do
  let start ← here
  let description ← optionalString
  let n ← name
  let args ← argumentDefinitions levels
  let _ ← expect .colon
  let type ← typeRef levels
  let ds ← constDirectives levels
  return ⟨some (← spanFrom start), description, n, args, type, ds⟩

def enumValueDefinition (levels : Nat) : m EnumValueDefinition := do
  let start ← here
  let description ← optionalString
  let n ← unreservedName .enumValue
  let ds ← constDirectives levels
  return ⟨some (← spanFrom start), description, n, ds⟩

def braced {α : Type} (item : m α) : m (List α) :=
  optionalMany .openBrace .closeBrace item

/-- What follows the name of a type of some form: its directives and its body. -/
def typeBody (levels : Nat) : TypeForm → m (List Directive × TypeBody)
  | .scalar => do
    let ds ← constDirectives levels
    return (ds, .scalar)
  | .object => do
    let is ← interfaces
    let ds ← constDirectives levels
    let fields ← braced (fieldDefinition levels)
    return (ds, .object is fields)
  | .interface => do
    let is ← interfaces
    let ds ← constDirectives levels
    let fields ← braced (fieldDefinition levels)
    return (ds, .interface is fields)
  | .union => do
    let ds ← constDirectives levels
    let ms ← members
    return (ds, .union ms)
  | .enum => do
    let ds ← constDirectives levels
    let values ← braced (enumValueDefinition levels)
    return (ds, .enum values)
  | .inputObject => do
    let ds ← constDirectives levels
    let fields ← braced (inputDefinition levels)
    return (ds, .inputObject fields)

def typeDefinition (levels : Nat) (form : TypeForm) : m TypeDefinition := do
  let start ← here
  let description ← optionalString
  let _ ← consume
  let n ← name
  let (ds, body) ← typeBody levels form
  return ⟨some (← spanFrom start), description, n, ds, body⟩

def schemaDefinition (levels : Nat) : m SchemaDefinition := do
  let start ← here
  let description ← optionalString
  let _ ← expectKeyword "schema"
  let ds ← constDirectives levels
  let roots ← many .openBrace .closeBrace (rootType : m RootType)
  return ⟨some (← spanFrom start), description, ds, roots⟩

/-- A directive. -/
def directiveDefinition (levels : Nat) : m DirectiveDefinition := do
  let start ← here
  let description ← optionalString
  let _ ← expectKeyword "directive"
  let _ ← expect .atSign
  let n ← name
  let args ← argumentDefinitions levels
  let isRepeatable ← acceptKeyword "repeatable"
  let _ ← expectKeyword "on"
  let locations ← separated .pipe (directiveLocation : m Name)
  return ⟨some (← spanFrom start), description, n, args, isRepeatable, locations⟩

/-- Additions to a schema, after both keywords. They may not be empty. -/
def schemaExtension (levels : Nat) (start : Position) : m SchemaExtension := do
  let ds ← constDirectives levels
  let roots ← braced (rootType : m RootType)
  if ds.isEmpty && roots.isEmpty then (unexpected none : Parser SchemaExtension)
  else return ⟨some (← spanFrom start), ds, roots⟩

/-- Additions to a type, after both keywords. They may not be empty. -/
def typeExtension (levels : Nat) (start : Position) (form : TypeForm) : m TypeExtension := do
  let n ← name
  let (ds, body) ← typeBody levels form
  if ds.isEmpty && body.isEmpty then (unexpected none : Parser TypeExtension)
  else return ⟨some (← spanFrom start), n, ds, body⟩

/-- An extension. The word after `extend` tells of what. -/
def extension (levels : Nat) : m Definition := do
  let start ← here
  let next ← lookahead
  match DefinitionKeyword.ofToken? next.kind with
  | some .schema =>
    let _ ← consume
    let _ ← consume
    .schemaExtension <$> schemaExtension levels start
  | some (.type form) =>
    let _ ← consume
    let _ ← consume
    .typeExtension <$> typeExtension levels start form
  | _ => (unexpectedAt next (some .extension) : Parser Definition)

/-- What a keyword starts. -/
def definitionAt (levels : Nat) : DefinitionKeyword → m Definition
  | .operation _ => .operation <$> operation levels
  | .fragment => .fragment <$> fragment levels
  | .schema => .schema <$> schemaDefinition levels
  | .directive => .directive <$> directiveDefinition levels
  | .extend => extension levels
  | .type form => .type <$> typeDefinition levels form

/-- A definition from its first token on, once it is known which token tells its sort. -/
def definitionBy (levels : Nat) (first leading : Token) : m Definition := do
  let keyword := DefinitionKeyword.ofToken? leading.kind
  if first.kind.isString && !(keyword.any (·.isDescribable)) then
    (fail .description (← originOf first) : Parser Definition)
  else
    match keyword with
    | some keyword => definitionAt levels keyword
    | none => (unexpected (some .definition) : Parser Definition)

/-- A definition or an extension. The word after a description tells what is described. -/
def definition (levels : Nat) : m Definition := do
  let first ← peek
  if first.kind = .punctuator .openBrace then .operation <$> operation levels
  else
    let leading ← if first.kind.isString then lookahead else peek
    definitionBy levels first leading

/-- Definitions up to the end of the input. -/
def definitions (levels : Nat) : m (List Definition) :=
  repeated do
    let t ← peek
    if t.kind = .endOfInput then return none
    else return some (← definition levels)

/-- A document: one definition or more, up to the end of the input. -/
def document (levels : Nat) : m Document := do
  let first ← definition levels
  let rest ← definitions levels
  return ⟨some (← spanFrom .first), first :: rest⟩

end Parser
end GraphQL
