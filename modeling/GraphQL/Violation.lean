import GraphQL.Ast.DirectiveLocation
import GraphQL.Diagnostic
import GraphQL.Token

/-! Violations: the ways in which a text can break the rules of the language, each with its wording
in one place. -/
namespace GraphQL

/-- Dots that form no spread. The flags say which neighbours touch. -/
inductive StrayDots where
  | one
  | two (adjacent : Bool)
  | three (first second : Bool)
  deriving DecidableEq

/-- What is wrong with a number that started well. -/
inductive NumberFault where
  /-- A zero in front of more digits. -/
  | leadingZero
  /-- A point without a digit after it. -/
  | bareFraction
  /-- An exponent without a digit. -/
  | bareExponent
  /-- A character that may not follow a number, after an integer or after a float. -/
  | trailing (c : Char) (afterFloat : Bool)
  deriving DecidableEq

/-- What a rule of the grammar asks for. -/
inductive Expectation where
  | mark (mark : Punctuator)
  | keyword (word : String)
  | name
  | value
  | definition
  | extension
  | operationKind
  | endOfInput
  deriving DecidableEq

/-- Positions of names in which some words are reserved. -/
inductive ReservingRole where
  | fragmentName
  | enumValue
  deriving DecidableEq

/-- Positions of values that may not depend on variables. -/
inductive ConstPosition where
  | variableDefault
  | directiveArgument
  | inputDefault
  | constValue
  deriving DecidableEq

/-- Why a text is refused. -/
inductive Violation where
  /-- A character that starts no token. -/
  | character (c : Char)
  | dots (dots : StrayDots)
  /-- A minus sign without a digit after it. -/
  | loneMinus
  /-- A faulty number; the text is all that looks like a part of it. -/
  | number (fault : NumberFault) (text : String)
  /-- A string without a closing quote, at a line end or at the end of the text. -/
  | openString (atLineEnd : Bool)
  | openBlockString
  /-- A character that may not stand in a string. -/
  | characterInString (c : Char)
  /-- A token that fits no rule here, or not the one rule that does apply. -/
  | unexpected (expected : Option Expectation) (found : TokenKind)
  /-- A string literal without a value. -/
  | string (fault : Text.StringFault)
  /-- An integer that does not fit into 32 bits. -/
  | intRange (literal : String)
  /-- A float beyond all finite ones. -/
  | floatRange (literal : String)
  | reservedName (name : String) (role : ReservingRole)
  | unknownLocation (name : String)
  /-- A description of something that has none. -/
  | description
  /-- A variable where values are constant. -/
  | variable (name : String) (position : ConstPosition)
  /-- More levels of nesting than the limit. -/
  | nesting (limit : Nat)
  deriving DecidableEq

/-- An expectation as messages name it. -/
def Expectation.text : Expectation → String
  | .mark m => s!"`{m.text}`"
  | .keyword word => s!"`{word}`"
  | .name => "a name"
  | .value => "a value"
  | .definition => "a definition"
  | .extension => "a type system extension"
  | .operationKind => "`query`, `mutation` or `subscription`"
  | .endOfInput => "end of input"

/-- The values of a const position, as messages name them. -/
def ConstPosition.text : ConstPosition → String
  | .variableDefault => "variable default values"
  | .directiveArgument => "const directive arguments"
  | .inputDefault => "input value default values"
  | .constValue => "const values"

namespace StrayDots

def message : StrayDots → String
  | one => "Unexpected `.`"
  | two true => "Unexpected `..` (use `...` for spread operator)"
  | two false => "Unexpected `. .` (use `...` for spread operator)"
  | three true _ => "Unexpected `.. .`"
  | three false true => "Unexpected `. ..`"
  | three false false => "Unexpected `. . .`"

/-- What to do about stray dots. -/
def help? : StrayDots → Option String
  | one => none
  | two true => some "Add one more `.` to form the spread operator `...`"
  | _ => some ("These dots may have been intended to form a `...` spread operator. " ++
      "Try removing the extra spacing between the dots.")

end StrayDots

namespace NumberFault

/-- The wording of a fault, without the number. -/
def message : NumberFault → String
  | leadingZero => "Invalid number: leading zeros are not allowed"
  | bareFraction => "Invalid number: expected digit after `.`"
  | bareExponent => "Invalid number: exponent must have at least one digit"
  | trailing c _ => s!"Invalid number: unexpected `{c}` after number"

/-- The section of the language's specification about numbers of this sort. -/
def specSection : NumberFault → String
  | leadingZero | trailing _ false => "https://spec.graphql.org/October2021/#sec-Int-Value"
  | bareFraction | bareExponent | trailing _ true =>
    "https://spec.graphql.org/October2021/#sec-Float-Value"

end NumberFault

namespace Violation

/-- The wording of an unexpected token. -/
def unexpectedMessage (expected : Option Expectation) (found : TokenKind) : String :=
  let shown := match found with
    | .endOfInput => "end of input"
    | k => if k.isString then k.display else s!"`{k.display}`"
  match expected, found with
  | some e, _ => s!"Expected {e.text}, found {shown}"
  | none, .endOfInput => "Unexpected end of input"
  | none, _ => s!"Unexpected {shown}"

def message : Violation → String
  | character c => s!"Unexpected character {Text.describe c}"
  | dots d => d.message
  | loneMinus => "Unexpected `-`"
  | number fault text => s!"{fault.message}: `{text}`"
  | openString _ => "Unterminated string literal"
  | openBlockString => "Unterminated block string"
  | characterInString c => s!"Invalid character within string: {Text.describe c}"
  | unexpected expected found => unexpectedMessage expected found
  | string fault => s!"Invalid string: {fault.message}"
  | intRange literal => s!"Int `{literal}` cannot be represented as a 32-bit signed integer"
  | floatRange literal => s!"Float `{literal}` is not a finite number"
  | reservedName name .fragmentName => s!"Fragment name cannot be `{name}`"
  | reservedName name .enumValue => s!"Enum value cannot be `{name}`"
  | unknownLocation name => s!"Unknown directive location `{name}`"
  | description => "Unexpected description"
  | .variable name position => s!"Variable `${name}` is not allowed in {position.text}"
  | nesting _ => "Maximum nesting depth exceeded"

def label : Violation → String
  | character _ | dots _ | characterInString _ => "InvalidCharacter"
  | loneMinus | number _ _ => "InvalidNumber"
  | openString _ | openBlockString | string _ => "InvalidString"
  | unexpected _ .endOfInput => "UnexpectedEof"
  | unexpected _ _ => "UnexpectedToken"
  | intRange _ | floatRange _ => "InvalidValue"
  | reservedName _ _ => "ReservedName"
  | unknownLocation _ => "UnknownDirectiveLocation"
  | description => "UnexpectedDescription"
  | .variable _ _ => "VariableInConstValue"
  | nesting _ => "NestingTooDeep"

/-- The sort of a violation in a few words. -/
def title : Violation → String
  | character _ | dots _ | characterInString _ => "invalid character"
  | loneMinus | number _ _ => "invalid number"
  | openString _ | openBlockString | string _ => "invalid string"
  | unexpected _ .endOfInput => "unexpected end of input"
  | unexpected _ found => s!"unexpected token: `{found.display}`"
  | intRange _ | floatRange _ => "invalid value"
  | reservedName name _ => s!"reserved name: `{name}`"
  | unknownLocation name => s!"unknown directive location: `{name}`"
  | description => "unexpected description"
  | .variable _ _ => "variable in const value"
  | nesting _ => "maximum nesting depth exceeded"

/-- What messages add about a violation, whatever its place. -/
def advice : Violation → List (NoteKind × String)
  | dots d => d.help?.toList.map (.help, ·)
  | number fault _ => [(.spec, fault.specSection)]
  | openString false => [(.help, "Add closing `\"`")]
  | openString true =>
    [(.help, "Add closing `\"`"),
      (.general, "Single-line strings cannot contain unescaped line terminators"),
      (.help, "Use a block string (triple quotes) for multi-line strings, or " ++
        "escape the line break with `\\n`")]
  | openBlockString => [(.help, "Add closing `\"\"\"`")]
  | unknownLocation name =>
    (DirectiveLocation.suggestion? name).toList.map fun s => (.help, s!"did you mean `{s}`?")
  | description =>
    [(.general, "descriptions may only precede schema, type and directive definitions")]
  | nesting limit =>
    [(.general, s!"values, selection sets and list types may nest at most {limit} levels deep")]
  | _ => []

end Violation

/-- A violation at its place. Where the text ends too early, the marks that were opened before and
never closed are kept with their places, innermost first. -/
structure SyntaxError where
  violation : Violation
  origin : Origin
  unclosed : List (Punctuator × Origin) := []
  deriving DecidableEq

namespace SyntaxError

/-- Remembers an opening mark around the place where the text ends too early. -/
def within (e : SyntaxError) (mark : Punctuator) (opened : Origin) : SyntaxError :=
  match e.violation with
  | .unexpected _ .endOfInput => { e with unclosed := e.unclosed ++ [(mark, opened)] }
  | _ => e

/-- A syntax error as a diagnostic. -/
def diagnostic (e : SyntaxError) : Diagnostic where
  message := e.violation.message
  origin := e.origin
  notes :=
    e.violation.advice.map (fun (kind, text) => ⟨kind, text, none⟩) ++
      e.unclosed.map fun (mark, opened) =>
        ⟨.general, s!"unclosed `{mark.text}` opened here", some opened⟩

end SyntaxError
end GraphQL
