import GraphQL.Source
import GraphQL.Text.Block

/-! Tokens: the words that a text is made of. A token keeps its literal as it is written. -/
namespace GraphQL

/-- Marks without a text of their own. -/
inductive Punctuator where
  | ampersand
  | atSign
  | bang
  | colon
  | closeBrace
  | openBrace
  | dollar
  | ellipsis
  | equals
  | closeParen
  | openParen
  | pipe
  | closeBracket
  | openBracket
  deriving DecidableEq

def Punctuator.text : Punctuator → String
  | .ampersand => "&"
  | .atSign => "@"
  | .bang => "!"
  | .colon => ":"
  | .closeBrace => "\x7d"
  | .openBrace => "\x7b"
  | .dollar => "$"
  | .ellipsis => "..."
  | .equals => "="
  | .closeParen => ")"
  | .openParen => "("
  | .pipe => "|"
  | .closeBracket => "]"
  | .openBracket => "["

def Punctuator.all : List Punctuator :=
  [.ampersand, .atSign, .bang, .colon, .closeBrace, .openBrace, .dollar, .ellipsis, .equals,
    .closeParen, .openParen, .pipe, .closeBracket, .openBracket]

def Punctuator.label : Punctuator → String
  | .ampersand => "Ampersand"
  | .atSign => "At"
  | .bang => "Bang"
  | .colon => "Colon"
  | .closeBrace => "CurlyBraceClose"
  | .openBrace => "CurlyBraceOpen"
  | .dollar => "Dollar"
  | .ellipsis => "Ellipsis"
  | .equals => "Equals"
  | .closeParen => "ParenClose"
  | .openParen => "ParenOpen"
  | .pipe => "Pipe"
  | .closeBracket => "SquareBracketClose"
  | .openBracket => "SquareBracketOpen"

/-- What a token is. Names include the words `true`, `false` and `null`, which only the position of
a value makes into literals. -/
inductive TokenKind where
  | punctuator (mark : Punctuator)
  | name (text : String)
  | int (literal : String)
  | float (literal : String)
  | string (literal : String)
  | blockString (literal : String)
  | startOfInput
  | endOfInput
  deriving DecidableEq

namespace TokenKind

/-- The mark that a token is, if it is one. -/
def mark? : TokenKind → Option Punctuator
  | .punctuator mark => some mark
  | _ => none

def label : TokenKind → String
  | .punctuator mark => mark.label
  | .name _ => "Name"
  | .int _ => "IntValue"
  | .float _ => "FloatValue"
  | .string _ => "StringValue"
  | .blockString _ => "BlockStringValue"
  | .startOfInput => "StartOfFile"
  | .endOfInput => "EndOfFile"

/-- The text of a token that is not the same for all of its sort. -/
def text? : TokenKind → Option String
  | .name text => some text
  | .int literal | .float literal | .string literal | .blockString literal => some literal
  | _ => none

/-- Strings of both notations. -/
def isString : TokenKind → Bool
  | .string _ | .blockString _ => true
  | _ => false

def isName : TokenKind → Bool
  | .name _ => true
  | _ => false

/-- A name with exactly this spelling. -/
def isKeyword (k : TokenKind) (word : String) : Bool :=
  match k with
  | .name text => text == word
  | _ => false

/-- Two tokens of one sort, whatever their texts. -/
def sameSort : TokenKind → TokenKind → Bool
  | .punctuator a, .punctuator b => a == b
  | .name _, .name _ => true
  | .int _, .int _ => true
  | .float _, .float _ => true
  | .string _, .string _ => true
  | .blockString _, .blockString _ => true
  | .startOfInput, .startOfInput => true
  | .endOfInput, .endOfInput => true
  | _, _ => false

/-- A token as messages call it. -/
def display : TokenKind → String
  | .punctuator mark => mark.text
  | .name text => text
  | .int literal => literal
  | .float literal => literal
  | .string _ => "string"
  | .blockString _ => "block string"
  | .startOfInput => "start of input"
  | .endOfInput => "end of input"

/-- The value of a string token; other tokens have none. -/
def stringValue? : TokenKind → Option (Except Text.StringFault String)
  | .string literal => some ((Text.Quoted.value literal.toList).map String.ofList)
  | .blockString literal => some ((Text.Block.value literal.toList).map String.ofList)
  | _ => none

end TokenKind

/-- A token and where it stands. -/
structure Token where
  kind : TokenKind
  start : Position
  stop : Position
  deriving DecidableEq

/-- The part of a source that a token covers. -/
def Token.origin (t : Token) (s : Source) : Origin := ⟨s, t.start, t.stop⟩

end GraphQL
