import GraphQL.Node
import GraphQL.Text.Decimal
import GraphQL.Token
import Mathlib.Computability.Language

/-! Spellings: the sequences of tokens that write a piece of syntax, its nodes, keywords and marks
in the order of the grammar. Positions and the characters between tokens play no part. -/
namespace GraphQL

/-- A language of token sequences. -/
abbrev Spelling := Language TokenKind

/-- How free a writer is. A plain text has a keyword at every operation and no mark in front of a
list that is separated by that mark. -/
inductive Style where
  | plain
  | free
  deriving DecidableEq

namespace Spelling

/-- Any one token of a sort. -/
def oneOf (p : TokenKind → Prop) : Spelling := fun ks => ∃ k, p k ∧ ks = [k]

/-- One given token. -/
def word (k : TokenKind) : Spelling := oneOf (· = k)

abbrev mark (m : Punctuator) : Spelling := word (.punctuator m)

/-- A name with a given text. -/
abbrev keyword (text : String) : Spelling := word (.name text)

variable {α : Type}

/-- Things in a row. -/
def row (f : α → Spelling) (items : List α) : Spelling := (items.map f).prod

/-- Something that may be missing. -/
def maybe (f : α → Spelling) : Option α → Spelling
  | none => 1
  | some a => f a

/-- Things in a row between marks; nothing at all if there are none. -/
def block (opening closing : Punctuator) (f : α → Spelling) : List α → Spelling
  | [] => 1
  | items => mark opening * row f items * mark closing

/-- A mark that only free texts have. -/
def leading (m : Punctuator) : Style → Spelling
  | .plain => 1
  | .free => 1 + mark m

/-- Things with a mark between them. -/
def separated (style : Style) (m : Punctuator) (f : α → Spelling) : List α → Spelling
  | [] => 1
  | a :: as => leading m style * f a * row (fun b => mark m * f b) as

theorem mem_oneOf {p : TokenKind → Prop} {ks : List TokenKind} :
    ks ∈ oneOf p ↔ ∃ k, p k ∧ ks = [k] := Iff.rfl

@[simp] theorem mem_word {k : TokenKind} {ks : List TokenKind} : ks ∈ word k ↔ ks = [k] := by
  simp [word, mem_oneOf]

@[simp] theorem nil_notMem_oneOf {p : TokenKind → Prop} : [] ∉ oneOf p := by
  simp [mem_oneOf]

@[simp] theorem nil_mem_mul {a b : Spelling} : [] ∈ a * b ↔ [] ∈ a ∧ [] ∈ b := by
  simp only [Language.mem_mul, List.append_eq_nil_iff]
  grind

theorem block_cons (opening closing : Punctuator) (f : α → Spelling) (a : α) (as : List α) :
    block opening closing f (a :: as) = mark opening * row f (a :: as) * mark closing := rfl

theorem mem_word_mul {k : TokenKind} {a : Spelling} {ks : List TokenKind} :
    ks ∈ word k * a ↔ ∃ later ∈ a, ks = k :: later := by
  simp only [Language.mem_mul, mem_word]
  grind

theorem mem_mul_word {k : TokenKind} {a : Spelling} {ks : List TokenKind} :
    ks ∈ a * word k ↔ ∃ first ∈ a, ks = first ++ [k] := by
  simp only [Language.mem_mul, mem_word]
  grind

@[simp] theorem row_nil (f : α → Spelling) : row f [] = 1 := rfl

@[simp] theorem row_cons (f : α → Spelling) (a : α) (as : List α) :
    row f (a :: as) = f a * row f as := by simp [row]

end Spelling

open Spelling

def TokenKind.isBlockString : TokenKind → Bool
  | .blockString _ => true
  | _ => false

def Name.spelling (n : Name) : Spelling := keyword n.value

/-- A string is spelled by the literals, in its own notation, that have its value. -/
def StringValue.spelling (s : StringValue) : Spelling :=
  oneOf fun k => k.stringValue? = some (.ok s.value) ∧ k.isBlockString = s.isBlock

def NamedType.spelling (t : NamedType) : Spelling := t.name.spelling

/-- An integer is spelled by the literals that denote it. -/
def intSpelling (n : Int32) : Spelling :=
  oneOf fun k => ∃ literal, k = .int literal ∧
    (Text.Decimal.ofLiteral literal.toList).toInt32? = some n

/-- A double is spelled by the literals that it is nearest to. -/
def floatSpelling (x : Float) : Spelling :=
  oneOf fun k => ∃ literal, k = .float literal ∧
    (Text.Decimal.ofLiteral literal.toList).toFloat? = some x

mutual

def Value.spelling : Value → Spelling
  | .boolean _ true => keyword "true"
  | .boolean _ false => keyword "false"
  | .enum _ text => keyword text
  | .float _ x => floatSpelling x
  | .int _ n => intSpelling n
  | .list _ vs => mark .openBracket * Value.spellings vs * mark .closeBracket
  | .null _ => keyword "null"
  | .object _ fs => mark .openBrace * ObjectField.spellings fs * mark .closeBrace
  | .string s => s.spelling
  | .variable _ n => mark .dollar * n.spelling

def Value.spellings : List Value → Spelling
  | [] => 1
  | v :: vs => v.spelling * Value.spellings vs

def ObjectField.spelling : ObjectField → Spelling
  | ⟨_, n, v⟩ => n.spelling * mark .colon * v.spelling

def ObjectField.spellings : List ObjectField → Spelling
  | [] => 1
  | f :: fs => f.spelling * ObjectField.spellings fs

end

mutual

/-- Types without a mark at the end. -/
def NullableType.spelling : NullableType → Spelling
  | .named t => t.spelling
  | .list _ e => mark .openBracket * e.spelling * mark .closeBracket

def TypeRef.spelling : TypeRef → Spelling
  | .nullable t => t.spelling
  | .nonNull _ t => t.spelling * mark .bang

end

def Argument.spelling (a : Argument) : Spelling :=
  a.name.spelling * mark .colon * a.value.spelling

def Directive.spelling (d : Directive) : Spelling :=
  mark .atSign * d.name.spelling * block .openParen .closeParen (·.spelling) d.arguments

def FragmentSpread.spelling (s : FragmentSpread) : Spelling :=
  mark .ellipsis * s.name.spelling * row (·.spelling) s.directives

mutual

def Selection.spelling : Selection → Spelling
  | .field f => f.spelling
  | .spread s => s.spelling
  | .inlineFragment f => f.spelling

/-- Fields, an alias before the name. -/
def Field.spelling : Field → Spelling
  | ⟨_, aliasName, name, arguments, directives, selectionSet⟩ =>
    maybe (fun n : Name => n.spelling * mark .colon) aliasName * name.spelling *
      block .openParen .closeParen (·.spelling) arguments * row (·.spelling) directives *
      SelectionSet.optionalSpelling selectionSet

def InlineFragment.spelling : InlineFragment → Spelling
  | ⟨_, condition, directives, selectionSet⟩ =>
    mark .ellipsis * maybe (fun t : NamedType => keyword "on" * t.spelling) condition *
      row (·.spelling) directives * selectionSet.spelling

def SelectionSet.spelling : SelectionSet → Spelling
  | ⟨_, selections⟩ => mark .openBrace * Selection.spellings selections * mark .closeBrace

def SelectionSet.optionalSpelling : Option SelectionSet → Spelling
  | none => 1
  | some s => s.spelling

def Selection.spellings : List Selection → Spelling
  | [] => 1
  | s :: ss => s.spelling * Selection.spellings ss

end

theorem Value.spellings_eq_row (vs : List Value) : Value.spellings vs = row (·.spelling) vs := by
  induction vs with
  | nil => rfl
  | cons v vs ih => simp [Value.spellings, ih]

theorem ObjectField.spellings_eq_row (fs : List ObjectField) :
    ObjectField.spellings fs = row (·.spelling) fs := by
  induction fs with
  | nil => rfl
  | cons f fs ih => simp [ObjectField.spellings, ih]

theorem Selection.spellings_eq_row (ss : List Selection) :
    Selection.spellings ss = row (·.spelling) ss := by
  induction ss with
  | nil => rfl
  | cons s ss ih => simp [Selection.spellings, ih]

/-- The mark after a type, if it has one. -/
def TypeRef.markSpelling : TypeRef → Spelling
  | .nullable _ => 1
  | .nonNull _ _ => mark .bang

theorem TypeRef.spelling_eq (t : TypeRef) : t.spelling = t.bare.spelling * t.markSpelling := by
  cases t with
  | nullable t => simp [TypeRef.spelling, bare, markSpelling]
  | nonNull o t => simp [TypeRef.spelling, bare, markSpelling]

theorem ObjectField.spelling_eq (f : ObjectField) :
    f.spelling = f.name.spelling * mark .colon * f.value.spelling := by
  cases f
  simp only [ObjectField.spelling]

theorem SelectionSet.spelling_eq (s : SelectionSet) :
    s.spelling = mark .openBrace * row (·.spelling) s.selections * mark .closeBrace := by
  cases s
  simp only [SelectionSet.spelling, Selection.spellings_eq_row]

theorem SelectionSet.optionalSpelling_eq (s : Option SelectionSet) :
    SelectionSet.optionalSpelling s = maybe (·.spelling) s := by
  cases s <;> rfl

theorem Field.spelling_eq (f : Field) :
    f.spelling = maybe (fun n : Name => n.spelling * mark .colon) f.aliasName * f.name.spelling *
      block .openParen .closeParen (·.spelling) f.arguments * row (·.spelling) f.directives *
      maybe (·.spelling) f.selectionSet := by
  cases f
  simp only [Field.spelling, SelectionSet.optionalSpelling_eq]

theorem InlineFragment.spelling_eq (f : InlineFragment) :
    f.spelling = mark .ellipsis *
      maybe (fun t : NamedType => keyword "on" * t.spelling) f.typeCondition *
      row (·.spelling) f.directives * f.selectionSet.spelling := by
  cases f
  simp only [InlineFragment.spelling]

theorem Value.trees_eq_map (vs : List Value) : Value.trees vs = vs.map (·.tree) := by
  induction vs with
  | nil => rfl
  | cons v vs ih => simp [Value.trees, ih]

theorem ObjectField.trees_eq_map (fs : List ObjectField) :
    ObjectField.trees fs = fs.map (·.tree) := by
  induction fs with
  | nil => rfl
  | cons f fs ih => simp [ObjectField.trees, ih]

theorem Selection.trees_eq_map (ss : List Selection) :
    Selection.trees ss = ss.map (·.tree) := by
  induction ss with
  | nil => rfl
  | cons s ss ih => simp [Selection.trees, ih]

/-- The value after an equals sign, where there is one. -/
def defaultSpelling : Option Value → Spelling :=
  maybe fun v => mark .equals * v.spelling

def VariableDefinition.spelling (d : VariableDefinition) : Spelling :=
  mark .dollar * d.name.spelling * mark .colon * d.type.spelling * defaultSpelling d.default *
    row (·.spelling) d.directives

/-- An operation that is nothing but the selections of a query. -/
def OperationDefinition.isBare (d : OperationDefinition) : Prop :=
  d.kind = .query ∧ d.name = none ∧ d.variableDefinitions = [] ∧ d.directives = []

/-- Operations start with their keyword. In free texts bare ones may do without. -/
def OperationDefinition.spelling (style : Style) (d : OperationDefinition) : Spelling := fun ks =>
  ks ∈ keyword d.kind.keyword * maybe (·.spelling) d.name *
      block .openParen .closeParen (·.spelling) d.variableDefinitions *
      row (·.spelling) d.directives * d.selectionSet.spelling ∨
    style = .free ∧ d.isBare ∧ ks ∈ d.selectionSet.spelling

def FragmentDefinition.spelling (d : FragmentDefinition) : Spelling :=
  keyword "fragment" * d.name.spelling * keyword "on" * d.typeCondition.spelling *
    row (·.spelling) d.directives * d.selectionSet.spelling

def RootType.spelling (t : RootType) : Spelling :=
  keyword t.operation.keyword * mark .colon * t.type.spelling

/-- A description, where there is one. -/
def descriptionSpelling : Option StringValue → Spelling := maybe (·.spelling)

def SchemaDefinition.spelling (d : SchemaDefinition) : Spelling :=
  descriptionSpelling d.description * keyword "schema" * row (·.spelling) d.directives *
    mark .openBrace * row (·.spelling) d.rootTypes * mark .closeBrace

def SchemaExtension.spelling (d : SchemaExtension) : Spelling :=
  keyword "extend" * keyword "schema" * row (·.spelling) d.directives *
    block .openBrace .closeBrace (·.spelling) d.rootTypes

def InputDefinition.spelling (d : InputDefinition) : Spelling :=
  descriptionSpelling d.description * d.name.spelling * mark .colon * d.type.spelling *
    defaultSpelling d.default * row (·.spelling) d.directives

/-- Arguments in parentheses, where there are any. -/
def argumentsSpelling : List InputDefinition → Spelling :=
  block .openParen .closeParen (·.spelling)

def FieldDefinition.spelling (d : FieldDefinition) : Spelling :=
  descriptionSpelling d.description * d.name.spelling * argumentsSpelling d.arguments *
    mark .colon * d.type.spelling * row (·.spelling) d.directives

def EnumValueDefinition.spelling (d : EnumValueDefinition) : Spelling :=
  descriptionSpelling d.description * d.name.spelling * row (·.spelling) d.directives

/-- A keyword or a mark and a list after it; nothing at all if the list is empty. -/
def introduced (style : Style) (first : Spelling) (m : Punctuator) :
    List NamedType → Spelling
  | [] => 1
  | types => first * separated style m (·.spelling) types

theorem introduced_cons (style : Style) (first : Spelling) (m : Punctuator) (t : NamedType)
    (ts : List NamedType) : introduced style first m (t :: ts) =
      first * separated style m (·.spelling) (t :: ts) := rfl

/-- What a type has between its name and its directives. -/
def TypeBody.leadingSpelling (style : Style) : TypeBody → Spelling
  | .object interfaces _ | .interface interfaces _ =>
    introduced style (keyword "implements") .ampersand interfaces
  | _ => 1

/-- What a type has after its directives. -/
def TypeBody.trailingSpelling (style : Style) : TypeBody → Spelling
  | .scalar => 1
  | .object _ fields | .interface _ fields => block .openBrace .closeBrace (·.spelling) fields
  | .union members => introduced style (mark .equals) .pipe members
  | .enum values => block .openBrace .closeBrace (·.spelling) values
  | .inputObject fields => block .openBrace .closeBrace (·.spelling) fields

/-- A type after its keyword: a name, directives and a body around them. -/
def typeSpelling (style : Style) (name : Name) (directives : List Directive) (body : TypeBody) :
    Spelling :=
  name.spelling * body.leadingSpelling style * row (·.spelling) directives *
    body.trailingSpelling style

def TypeDefinition.spelling (style : Style) (d : TypeDefinition) : Spelling :=
  descriptionSpelling d.description * keyword d.body.form.keyword *
    typeSpelling style d.name d.directives d.body

def TypeExtension.spelling (style : Style) (d : TypeExtension) : Spelling :=
  keyword "extend" * keyword d.body.form.keyword * typeSpelling style d.name d.directives d.body

/-- The word that allows a directive to be repeated. -/
def repeatableSpelling : Bool → Spelling
  | true => keyword "repeatable"
  | false => 1

def DirectiveDefinition.spelling (style : Style) (d : DirectiveDefinition) : Spelling :=
  descriptionSpelling d.description * keyword "directive" * mark .atSign * d.name.spelling *
    argumentsSpelling d.arguments * repeatableSpelling d.isRepeatable * keyword "on" *
    separated style .pipe (·.spelling) d.locations

def Definition.spelling (style : Style) : Definition → Spelling
  | .operation d => d.spelling style
  | .fragment d => d.spelling
  | .schema d => d.spelling
  | .schemaExtension d => d.spelling
  | .type d => d.spelling style
  | .typeExtension d => d.spelling style
  | .directive d => d.spelling style

/-- A document is spelled by its definitions in their order. -/
def Document.spelling (style : Style) (d : Document) : Spelling :=
  row (·.spelling style) d.definitions

/-- The spellings of a node in free texts. -/
def Node.spelling : Node → Spelling
  | document n => n.spelling .free
  | operation n => n.spelling .free
  | fragment n => n.spelling
  | variableDefinition n => n.spelling
  | selectionSet n => n.spelling
  | field n => n.spelling
  | spread n => n.spelling
  | inlineFragment n => n.spelling
  | argument n => n.spelling
  | directive n => n.spelling
  | value n => n.spelling
  | objectField n => n.spelling
  | type n => n.spelling
  | schema n => n.spelling
  | schemaExtension n => n.spelling
  | rootType n => n.spelling
  | typeDefinition n => n.spelling .free
  | typeExtension n => n.spelling .free
  | enumValueDefinition n => n.spelling
  | directiveDefinition n => n.spelling .free
  | fieldDefinition n => n.spelling
  | inputDefinition n => n.spelling
  | name n => n.spelling

end GraphQL
