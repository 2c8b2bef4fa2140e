import GraphQL.Node

/-! Equality of syntax: strict, where origins count, and comparison, where they count on demand.
Floats are compared as numbers. -/
namespace GraphQL

mutual

/-- Equality of values, origins included. -/
def Value.beq : Value → Value → Bool
  | .boolean o a, .boolean o' b => o == o' && a == b
  | .enum o a, .enum o' b => o == o' && a == b
  | .float o a, .float o' b => o == o' && a == b
  | .int o a, .int o' b => o == o' && a == b
  | .list o a, .list o' b => o == o' && Value.beqAll a b
  | .null o, .null o' => o == o'
  | .object o a, .object o' b => o == o' && ObjectField.beqAll a b
  | .string a, .string b => a == b
  | .variable o a, .variable o' b => o == o' && a == b
  | _, _ => false

def Value.beqAll : List Value → List Value → Bool
  | [], [] => true
  | a :: as, b :: bs => a.beq b && Value.beqAll as bs
  | _, _ => false

def ObjectField.beq : ObjectField → ObjectField → Bool
  | ⟨o, n, v⟩, ⟨o', n', v'⟩ => o == o' && n == n' && v.beq v'

def ObjectField.beqAll : List ObjectField → List ObjectField → Bool
  | [], [] => true
  | a :: as, b :: bs => a.beq b && ObjectField.beqAll as bs
  | _, _ => false

end

instance : BEq Value := ⟨Value.beq⟩
instance : BEq ObjectField := ⟨ObjectField.beq⟩

mutual

def NullableType.beq : NullableType → NullableType → Bool
  | .named a, .named b => a == b
  | .list o a, .list o' b => o == o' && a.beq b
  | _, _ => false

def TypeRef.beq : TypeRef → TypeRef → Bool
  | .nullable a, .nullable b => a.beq b
  | .nonNull o a, .nonNull o' b => o == o' && a.beq b
  | _, _ => false

end

instance : BEq NullableType := ⟨NullableType.beq⟩
instance : BEq TypeRef := ⟨TypeRef.beq⟩

deriving instance BEq for Argument
deriving instance BEq for Directive
deriving instance BEq for FragmentSpread

mutual

def Selection.beq : Selection → Selection → Bool
  | .field a, .field b => a.beq b
  | .spread a, .spread b => a == b
  | .inlineFragment a, .inlineFragment b => a.beq b
  | _, _ => false

def Field.beq : Field → Field → Bool
  | ⟨o, aliasName, name, arguments, directives, selectionSet⟩, b =>
    o == b.origin && aliasName == b.aliasName && name == b.name && arguments == b.arguments &&
      directives == b.directives && SelectionSet.beqOptional selectionSet b.selectionSet

def InlineFragment.beq : InlineFragment → InlineFragment → Bool
  | ⟨o, condition, directives, selectionSet⟩, b =>
    o == b.origin && condition == b.typeCondition && directives == b.directives &&
      selectionSet.beq b.selectionSet

def SelectionSet.beq : SelectionSet → SelectionSet → Bool
  | ⟨o, selections⟩, b => o == b.origin && Selection.beqAll selections b.selections

def SelectionSet.beqOptional : Option SelectionSet → Option SelectionSet → Bool
  | none, none => true
  | some a, some b => a.beq b
  | _, _ => false

def Selection.beqAll : List Selection → List Selection → Bool
  | [], [] => true
  | a :: as, b :: bs => a.beq b && Selection.beqAll as bs
  | _, _ => false

end

instance : BEq Selection := ⟨Selection.beq⟩
instance : BEq Field := ⟨Field.beq⟩
instance : BEq InlineFragment := ⟨InlineFragment.beq⟩
instance : BEq SelectionSet := ⟨SelectionSet.beq⟩

deriving instance BEq for VariableDefinition
deriving instance BEq for OperationDefinition
deriving instance BEq for FragmentDefinition
deriving instance BEq for RootType
deriving instance BEq for SchemaDefinition
deriving instance BEq for SchemaExtension
deriving instance BEq for InputDefinition
deriving instance BEq for FieldDefinition
deriving instance BEq for EnumValueDefinition
deriving instance BEq for TypeBody
deriving instance BEq for TypeDefinition
deriving instance BEq for TypeExtension
deriving instance BEq for DirectiveDefinition
deriving instance BEq for Definition
deriving instance BEq for Document
deriving instance BEq for Node

/-- Things that can be compared with or without regard to origins. -/
class Comparable (α : Type) where
  /-- Whether two things are the same. The flag tells whether their origins count. -/
  same (origins : Bool) : α → α → Bool

export Comparable (same)

instance {α : Type} [Comparable α] : Comparable (Option α) where
  same origins
    | none, none => true
    | some a, some b => same origins a b
    | _, _ => false

instance {α : Type} [Comparable α] : Comparable (List α) where
  same origins a b := a.isEqv b (same origins)

/-- Origins that may be missing; where origins do not count, one may be there and the other not. -/
def sameOrigin (origins : Bool) (a b : Option Origin) : Bool := !origins || a == b

instance : Comparable Name where
  same origins a b := sameOrigin origins a.origin b.origin && a.value == b.value

instance : Comparable StringValue where
  same origins a b :=
    sameOrigin origins a.origin b.origin && a.value == b.value && a.isBlock == b.isBlock

mutual

def Value.same (origins : Bool) : Value → Value → Bool
  | .boolean o a, .boolean o' b => sameOrigin origins o o' && a == b
  | .enum o a, .enum o' b => sameOrigin origins o o' && a == b
  | .float o a, .float o' b => sameOrigin origins o o' && a == b
  | .int o a, .int o' b => sameOrigin origins o o' && a == b
  | .list o a, .list o' b => sameOrigin origins o o' && Value.sameAll origins a b
  | .null o, .null o' => sameOrigin origins o o'
  | .object o a, .object o' b => sameOrigin origins o o' && ObjectField.sameAll origins a b
  | .string a, .string b => Comparable.same origins a b
  | .variable o a, .variable o' b => sameOrigin origins o o' && Comparable.same origins a b
  | _, _ => false

def Value.sameAll (origins : Bool) : List Value → List Value → Bool
  | [], [] => true
  | a :: as, b :: bs => a.same origins b && Value.sameAll origins as bs
  | _, _ => false

def ObjectField.same (origins : Bool) : ObjectField → ObjectField → Bool
  | ⟨o, n, v⟩, ⟨o', n', v'⟩ =>
    sameOrigin origins o o' && Comparable.same origins n n' && v.same origins v'

def ObjectField.sameAll (origins : Bool) : List ObjectField → List ObjectField → Bool
  | [], [] => true
  | a :: as, b :: bs => a.same origins b && ObjectField.sameAll origins as bs
  | _, _ => false

end

instance : Comparable Value := ⟨Value.same⟩
instance : Comparable ObjectField := ⟨ObjectField.same⟩

instance : Comparable NamedType where
  same origins a b := sameOrigin origins a.origin b.origin && same origins a.name b.name

mutual

def NullableType.same (origins : Bool) : NullableType → NullableType → Bool
  | .named a, .named b => Comparable.same origins a b
  | .list o a, .list o' b => sameOrigin origins o o' && a.same origins b
  | _, _ => false

def TypeRef.same (origins : Bool) : TypeRef → TypeRef → Bool
  | .nullable a, .nullable b => a.same origins b
  | .nonNull o a, .nonNull o' b => sameOrigin origins o o' && a.same origins b
  | _, _ => false

end

instance : Comparable NullableType := ⟨NullableType.same⟩
instance : Comparable TypeRef := ⟨TypeRef.same⟩

instance : Comparable Argument where
  same origins a b :=
    sameOrigin origins a.origin b.origin && same origins a.name b.name &&
      same origins a.value b.value

instance : Comparable Directive where
  same origins a b :=
    sameOrigin origins a.origin b.origin && same origins a.name b.name &&
      same origins a.arguments b.arguments

instance : Comparable FragmentSpread where
  same origins a b :=
    sameOrigin origins a.origin b.origin && same origins a.name b.name &&
      same origins a.directives b.directives

mutual

def Selection.same (origins : Bool) : Selection → Selection → Bool
  | .field a, .field b => a.same origins b
  | .spread a, .spread b => Comparable.same origins a b
  | .inlineFragment a, .inlineFragment b => a.same origins b
  | _, _ => false

def Field.same (origins : Bool) : Field → Field → Bool
  | ⟨o, aliasName, name, arguments, directives, selectionSet⟩, b =>
    sameOrigin origins o b.origin && Comparable.same origins aliasName b.aliasName &&
      Comparable.same origins name b.name && Comparable.same origins arguments b.arguments &&
      Comparable.same origins directives b.directives &&
      SelectionSet.sameOptional origins selectionSet b.selectionSet

def InlineFragment.same (origins : Bool) : InlineFragment → InlineFragment → Bool
  | ⟨o, condition, directives, selectionSet⟩, b =>
    sameOrigin origins o b.origin && Comparable.same origins condition b.typeCondition &&
      Comparable.same origins directives b.directives && selectionSet.same origins b.selectionSet

def SelectionSet.same (origins : Bool) : SelectionSet → SelectionSet → Bool
  | ⟨o, selections⟩, b =>
    sameOrigin origins o b.origin && Selection.sameAll origins selections b.selections

def SelectionSet.sameOptional (origins : Bool) : Option SelectionSet → Option SelectionSet → Bool
  | none, none => true
  | some a, some b => a.same origins b
  | _, _ => false

def Selection.sameAll (origins : Bool) : List Selection → List Selection → Bool
  | [], [] => true
  | a :: as, b :: bs => a.same origins b && Selection.sameAll origins as bs
  | _, _ => false

end

instance : Comparable Selection := ⟨Selection.same⟩
instance : Comparable Field := ⟨Field.same⟩
instance : Comparable InlineFragment := ⟨InlineFragment.same⟩
instance : Comparable SelectionSet := ⟨SelectionSet.same⟩

instance : Comparable VariableDefinition where
  same origins a b :=
    sameOrigin origins a.origin b.origin && same origins a.name b.name &&
      same origins a.type b.type && same origins a.default b.default &&
      same origins a.directives b.directives

instance : Comparable OperationDefinition where
  same origins a b :=
    sameOrigin origins a.origin b.origin && a.kind == b.kind && same origins a.name b.name &&
      same origins a.variableDefinitions b.variableDefinitions &&
      same origins a.directives b.directives && same origins a.selectionSet b.selectionSet

instance : Comparable FragmentDefinition where
  same origins a b :=
    sameOrigin origins a.origin b.origin && same origins a.name b.name &&
      same origins a.typeCondition b.typeCondition && same origins a.directives b.directives &&
      same origins a.selectionSet b.selectionSet

instance : Comparable RootType where
  same origins a b :=
    sameOrigin origins a.origin b.origin && a.operation == b.operation &&
      same origins a.type b.type

instance : Comparable SchemaDefinition where
  same origins a b :=
    sameOrigin origins a.origin b.origin && same origins a.description b.description &&
      same origins a.directives b.directives && same origins a.rootTypes b.rootTypes

instance : Comparable SchemaExtension where
  same origins a b :=
    sameOrigin origins a.origin b.origin && same origins a.directives b.directives &&
      same origins a.rootTypes b.rootTypes

instance : Comparable InputDefinition where
  same origins a b :=
    sameOrigin origins a.origin b.origin && same origins a.description b.description &&
      same origins a.name b.name && same origins a.type b.type &&
      same origins a.default b.default && same origins a.directives b.directives

instance : Comparable FieldDefinition where
  same origins a b :=
    sameOrigin origins a.origin b.origin && same origins a.description b.description &&
      same origins a.name b.name && same origins a.arguments b.arguments &&
      same origins a.type b.type && same origins a.directives b.directives

instance : Comparable EnumValueDefinition where
  same origins a b :=
    sameOrigin origins a.origin b.origin && same origins a.description b.description &&
      same origins a.name b.name && same origins a.directives b.directives

instance : Comparable TypeBody where
  same origins
    | .scalar, .scalar => true
    | .object is fs, .object is' fs' => same origins is is' && same origins fs fs'
    | .interface is fs, .interface is' fs' => same origins is is' && same origins fs fs'
    | .union ms, .union ms' => same origins ms ms'
    | .enum vs, .enum vs' => same origins vs vs'
    | .inputObject fs, .inputObject fs' => same origins fs fs'
    | _, _ => false

instance : Comparable TypeDefinition where
  same origins a b :=
    sameOrigin origins a.origin b.origin && same origins a.description b.description &&
      same origins a.name b.name && same origins a.directives b.directives &&
      same origins a.body b.body

instance : Comparable TypeExtension where
  same origins a b :=
    sameOrigin origins a.origin b.origin && same origins a.name b.name &&
      same origins a.directives b.directives && same origins a.body b.body

instance : Comparable DirectiveDefinition where
  same origins a b :=
    sameOrigin origins a.origin b.origin && same origins a.description b.description &&
      same origins a.name b.name && same origins a.arguments b.arguments &&
      a.isRepeatable == b.isRepeatable && same origins a.locations b.locations

instance : Comparable Definition where
  same origins
    | .operation a, .operation b => same origins a b
    | .fragment a, .fragment b => same origins a b
    | .schema a, .schema b => same origins a b
    | .schemaExtension a, .schemaExtension b => same origins a b
    | .type a, .type b => same origins a b
    | .typeExtension a, .typeExtension b => same origins a b
    | .directive a, .directive b => same origins a b
    | _, _ => false

instance : Comparable Document where
  same origins a b :=
    sameOrigin origins a.origin b.origin && same origins a.definitions b.definitions

end GraphQL
