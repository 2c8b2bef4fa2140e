import GraphQL.Transformer
import Mathlib.Data.List.Forall2

/-! The slots in which a transformer meets syntax, and the syntax right below syntax in a slot. -/
namespace GraphQL

/-- The slots in which a transformer treats syntax, one for each of its hooks. -/
inductive Slot where
  | document
  | definition
  | operation
  | fragment
  | variableDefinition
  | selectionSet
  | selection
  | field
  | spread
  | inlineFragment
  | argument
  | directive
  | value
  | valueOf (kind : ValueKind)
  | string
  | objectField
  | type
  | markedType
  | namedType
  | listType
  | nonNullType
  | schema
  | schemaExtension
  | rootType
  | typeDefinition
  | typeDefinitionOf (form : TypeForm)
  | typeExtension
  | typeExtensionOf (form : TypeForm)
  | enumValueDefinition
  | directiveDefinition
  | fieldDefinition
  | inputDefinition
  | name
  deriving DecidableEq

namespace Slot

/-- What stands in a slot. -/
abbrev Syntax : Slot → Type
  | document => Document
  | definition => Definition
  | operation => OperationDefinition
  | fragment => FragmentDefinition
  | variableDefinition => VariableDefinition
  | selectionSet => SelectionSet
  | selection => Selection
  | field => Field
  | spread => FragmentSpread
  | inlineFragment => InlineFragment
  | argument => Argument
  | directive => Directive
  | value | valueOf _ => Value
  | string => StringValue
  | objectField => ObjectField
  | type | nonNullType => TypeRef
  | markedType | listType => NullableType
  | namedType => NamedType
  | schema => SchemaDefinition
  | schemaExtension => SchemaExtension
  | rootType => RootType
  | typeDefinition | typeDefinitionOf _ => TypeDefinition
  | typeExtension | typeExtensionOf _ => TypeExtension
  | enumValueDefinition => EnumValueDefinition
  | directiveDefinition => DirectiveDefinition
  | fieldDefinition => FieldDefinition
  | inputDefinition => InputDefinition
  | name => Name

end Slot

/-- Syntax in a row, all of it in one slot. -/
structure Row where
  slot : Slot
  items : List slot.Syntax

/-- A row of any number of items. -/
def Row.many (r : Slot) (as : List r.Syntax) : Row := ⟨r, as⟩

/-- A row of one item. -/
def Row.single (r : Slot) (a : r.Syntax) : Row := ⟨r, [a]⟩

/-- A row of one item or none. -/
def Row.optional (r : Slot) (a : Option r.Syntax) : Row := ⟨r, a.toList⟩

/-- The rows right below some syntax. -/
abbrev Rows := List Row

namespace Rows

/-- All items of the row at a place; none unless they stand in the given slot. -/
def all (rows : Rows) (i : Nat) (r : Slot) : List r.Syntax :=
  match rows[i]? with
  | none => []
  | some row => if h : row.slot = r then h ▸ row.items else []

/-- The first item of the row at a place, if there is one. -/
def optional (rows : Rows) (i : Nat) (r : Slot) : Option r.Syntax := (rows.all i r).head?

/-- The first item of the row at a place, or `a` for want of one. -/
def one (rows : Rows) (i : Nat) (r : Slot) (a : r.Syntax) : r.Syntax := (rows.all i r).headD a

variable (r : Slot) (row : Row) (rows : Rows) (i : Nat)

@[simp] theorem all_cons (as : List r.Syntax) : all (.many r as :: rows) 0 r = as := by
  simp [all, Row.many]

@[simp] theorem optional_cons (a : Option r.Syntax) :
    optional (.optional r a :: rows) 0 r = a := by
  simp [optional, Row.optional, all]

@[simp] theorem one_cons (a b : r.Syntax) : one (.single r a :: rows) 0 r b = a := by
  simp [one, Row.single, all]

@[simp] theorem all_succ : all (row :: rows) (i + 1) r = all rows i r := rfl

@[simp] theorem optional_succ : optional (row :: rows) (i + 1) r = optional rows i r := rfl

@[simp] theorem one_succ (a : r.Syntax) : one (row :: rows) (i + 1) r a = one rows i r a := rfl

end Rows

namespace Slot

/-- The rows of a type: its directives and what is in its body, in the order of the text. -/
def bodyRows (ds : List Directive) : TypeBody → Rows
  | .scalar => [.many directive ds]
  | .object is fs | .interface is fs =>
    [.many namedType is, .many directive ds, .many fieldDefinition fs]
  | .union ms => [.many directive ds, .many namedType ms]
  | .enum vs => [.many directive ds, .many enumValueDefinition vs]
  | .inputObject fs => [.many directive ds, .many inputDefinition fs]

/-- The syntax right below syntax in a slot, in the order of the text: a row for each part that
there can be, with at most one item for a part that stands alone. -/
def rows : (r : Slot) → r.Syntax → Rows
  | document, d => [.many definition d.definitions]
  | definition, .operation d => [.single operation d]
  | definition, .fragment d => [.single fragment d]
  | definition, .schema d => [.single schema d]
  | definition, .schemaExtension d => [.single schemaExtension d]
  | definition, .type d => [.single typeDefinition d]
  | definition, .typeExtension d => [.single typeExtension d]
  | definition, .directive d => [.single directiveDefinition d]
  | operation, d => [.optional name d.name, .many variableDefinition d.variableDefinitions,
      .many directive d.directives, .single selectionSet d.selectionSet]
  | fragment, d => [.single name d.name, .single namedType d.typeCondition,
      .many directive d.directives, .single selectionSet d.selectionSet]
  | variableDefinition, d => [.single name d.name, .single type d.type, .optional value d.default,
      .many directive d.directives]
  | selectionSet, s => [.many selection s.selections]
  | selection, .field f => [.single field f]
  | selection, .spread s => [.single spread s]
  | selection, .inlineFragment f => [.single inlineFragment f]
  | field, f => [.optional name f.aliasName, .single name f.name, .many argument f.arguments,
      .many directive f.directives, .optional selectionSet f.selectionSet]
  | spread, s => [.single name s.name, .many directive s.directives]
  | inlineFragment, f => [.optional namedType f.typeCondition, .many directive f.directives,
      .single selectionSet f.selectionSet]
  | argument, a => [.single name a.name, .single value a.value]
  | directive, d => [.single name d.name, .many argument d.arguments]
  | value, .string s => [.single string s]
  | value, v => [.single (valueOf v.kind) v]
  | valueOf _, .list _ vs => [.many value vs]
  | valueOf _, .object _ fs => [.many objectField fs]
  | valueOf _, .variable _ n => [.single name n]
  | valueOf _, _ => []
  | string, _ => []
  | objectField, f => [.single name f.name, .single value f.value]
  | type, .nullable (.named t) => [.single namedType t]
  | type, .nullable (.list o e) => [.single listType (.list o e)]
  | type, .nonNull o t => [.single nonNullType (.nonNull o t)]
  | markedType, .named t => [.single namedType t]
  | markedType, .list o e => [.single listType (.list o e)]
  | namedType, t => [.single name t.name]
  | listType, .list _ e => [.single type e]
  | listType, .named _ => []
  | nonNullType, .nonNull _ t => [.single markedType t]
  | nonNullType, .nullable _ => []
  | schema, d => [.optional string d.description, .many directive d.directives,
      .many rootType d.rootTypes]
  | schemaExtension, d => [.many directive d.directives, .many rootType d.rootTypes]
  | rootType, t => [.single namedType t.type]
  | typeDefinition, d => [.single (typeDefinitionOf d.body.form) d]
  | typeDefinitionOf _, d =>
    .optional string d.description :: .single name d.name :: bodyRows d.directives d.body
  | typeExtension, d => [.single (typeExtensionOf d.body.form) d]
  | typeExtensionOf _, d => .single name d.name :: bodyRows d.directives d.body
  | enumValueDefinition, d => [.optional string d.description, .single name d.name,
      .many directive d.directives]
  | directiveDefinition, d => [.optional string d.description, .single name d.name,
      .many inputDefinition d.arguments, .many name d.locations]
  | fieldDefinition, d => [.optional string d.description, .single name d.name,
      .many inputDefinition d.arguments, .single type d.type, .many directive d.directives]
  | inputDefinition, d => [.optional string d.description, .single name d.name, .single type d.type,
      .optional value d.default, .many directive d.directives]
  | name, _ => []

/-- The directives and the body of a type, made of other rows. -/
def bodyWith (rows : Rows) : TypeBody → List Directive × TypeBody
  | .scalar => (rows.all 0 directive, .scalar)
  | .object _ _ => (rows.all 1 directive,
      .object (rows.all 0 namedType) (rows.all 2 fieldDefinition))
  | .interface _ _ => (rows.all 1 directive,
      .interface (rows.all 0 namedType) (rows.all 2 fieldDefinition))
  | .union _ => (rows.all 0 directive, .union (rows.all 1 namedType))
  | .enum _ => (rows.all 0 directive, .enum (rows.all 1 enumValueDefinition))
  | .inputObject _ => (rows.all 0 directive, .inputObject (rows.all 1 inputDefinition))

/-- The same syntax with other rows right below it. -/
def withRows : (r : Slot) → r.Syntax → Rows → r.Syntax
  | document, d, rows => { d with definitions := rows.all 0 definition }
  | definition, .operation d, rows => .operation (rows.one 0 operation d)
  | definition, .fragment d, rows => .fragment (rows.one 0 fragment d)
  | definition, .schema d, rows => .schema (rows.one 0 schema d)
  | definition, .schemaExtension d, rows =>
    .schemaExtension (rows.one 0 schemaExtension d)
  | definition, .type d, rows => .type (rows.one 0 typeDefinition d)
  | definition, .typeExtension d, rows => .typeExtension (rows.one 0 typeExtension d)
  | definition, .directive d, rows => .directive (rows.one 0 directiveDefinition d)
  | operation, d, rows => { d with
      name := rows.optional 0 name
      variableDefinitions := rows.all 1 variableDefinition
      directives := rows.all 2 directive
      selectionSet := rows.one 3 selectionSet d.selectionSet }
  | fragment, d, rows => { d with
      name := rows.one 0 name d.name
      typeCondition := rows.one 1 namedType d.typeCondition
      directives := rows.all 2 directive
      selectionSet := rows.one 3 selectionSet d.selectionSet }
  | variableDefinition, d, rows => { d with
      name := rows.one 0 name d.name
      type := rows.one 1 type d.type
      default := rows.optional 2 value
      directives := rows.all 3 directive }
  | selectionSet, s, rows => { s with selections := rows.all 0 selection }
  | selection, .field f, rows => .field (rows.one 0 field f)
  | selection, .spread s, rows => .spread (rows.one 0 spread s)
  | selection, .inlineFragment f, rows => .inlineFragment (rows.one 0 inlineFragment f)
  | field, f, rows => { f with
      aliasName := rows.optional 0 name
      name := rows.one 1 name f.name
      arguments := rows.all 2 argument
      directives := rows.all 3 directive
      selectionSet := rows.optional 4 selectionSet }
  | spread, s, rows => { s with
      name := rows.one 0 name s.name
      directives := rows.all 1 directive }
  | inlineFragment, f, rows => { f with
      typeCondition := rows.optional 0 namedType
      directives := rows.all 1 directive
      selectionSet := rows.one 2 selectionSet f.selectionSet }
  | argument, a, rows => { a with
      name := rows.one 0 name a.name
      value := rows.one 1 value a.value }
  | directive, d, rows => { d with
      name := rows.one 0 name d.name
      arguments := rows.all 1 argument }
  | value, .string s, rows => .string (rows.one 0 string s)
  | value, v, rows => rows.one 0 (valueOf v.kind) v
  | valueOf _, .list o _, rows => .list o (rows.all 0 value)
  | valueOf _, .object o _, rows => .object o (rows.all 0 objectField)
  | valueOf _, .variable o n, rows => .variable o (rows.one 0 name n)
  | valueOf _, v, _ => v
  | string, s, _ => s
  | objectField, f, rows => { f with
      name := rows.one 0 name f.name
      value := rows.one 1 value f.value }
  | type, .nullable (.named t), rows => .nullable (.named (rows.one 0 namedType t))
  | type, .nullable (.list o e), rows => .nullable (rows.one 0 listType (.list o e))
  | type, .nonNull o t, rows => rows.one 0 nonNullType (.nonNull o t)
  | markedType, .named t, rows => .named (rows.one 0 namedType t)
  | markedType, .list o e, rows => rows.one 0 listType (.list o e)
  | namedType, t, rows => { t with name := rows.one 0 name t.name }
  | listType, .list o e, rows => .list o (rows.one 0 type e)
  | listType, .named t, _ => .named t
  | nonNullType, .nonNull o t, rows => .nonNull o (rows.one 0 markedType t)
  | nonNullType, .nullable t, _ => .nullable t
  | schema, d, rows => { d with
      description := rows.optional 0 string
      directives := rows.all 1 directive
      rootTypes := rows.all 2 rootType }
  | schemaExtension, d, rows => { d with
      directives := rows.all 0 directive
      rootTypes := rows.all 1 rootType }
  | rootType, t, rows => { t with type := rows.one 0 namedType t.type }
  | typeDefinition, d, rows => rows.one 0 (typeDefinitionOf d.body.form) d
  | typeDefinitionOf _, d, rows => { d with
      description := rows.optional 0 string
      name := rows.one 1 name d.name
      directives := (bodyWith (rows.drop 2) d.body).1
      body := (bodyWith (rows.drop 2) d.body).2 }
  | typeExtension, d, rows => rows.one 0 (typeExtensionOf d.body.form) d
  | typeExtensionOf _, d, rows => { d with
      name := rows.one 0 name d.name
      directives := (bodyWith (rows.drop 1) d.body).1
      body := (bodyWith (rows.drop 1) d.body).2 }
  | enumValueDefinition, d, rows => { d with
      description := rows.optional 0 string
      name := rows.one 1 name d.name
      directives := rows.all 2 directive }
  | directiveDefinition, d, rows => { d with
      description := rows.optional 0 string
      name := rows.one 1 name d.name
      arguments := rows.all 2 inputDefinition
      locations := rows.all 3 name }
  | fieldDefinition, d, rows => { d with
      description := rows.optional 0 string
      name := rows.one 1 name d.name
      arguments := rows.all 2 inputDefinition
      type := rows.one 3 type d.type
      directives := rows.all 4 directive }
  | inputDefinition, d, rows => { d with
      description := rows.optional 0 string
      name := rows.one 1 name d.name
      type := rows.one 2 type d.type
      default := rows.optional 3 value
      directives := rows.all 4 directive }
  | name, n, _ => n

/-- Syntax of the sort that a slot is for. -/
def Admits : (r : Slot) → r.Syntax → Prop
  | valueOf k, v => v.kind = k
  | listType, t => ∃ o e, t = .list o e
  | nonNullType, t => t.isNonNull
  | typeDefinitionOf f, d => d.body.form = f
  | typeExtensionOf f, d => d.body.form = f
  | _, _ => True

end Slot

/-- A row that can stand in the place of another one. -/
structure Row.Fits (new old : Row) : Prop where
  slot : new.slot = old.slot
  length : new.items.length = old.items.length
  admits : ∀ a ∈ new.items, new.slot.Admits a

namespace Rows

/-- Rows that can stand in the place of others. -/
abbrev Fit (new old : Rows) : Prop := List.Forall₂ Row.Fits new old

variable {r : Slot} {as : List r.Syntax} {old : Rows} {P : Rows → Prop}

theorem forall_fit_nil : (∀ new, Fit new [] → P new) ↔ P [] := by
  simp [Fit, List.forall₂_nil_right_iff]

theorem forall_fit_many :
    (∀ new, Fit new (.many r as :: old) → P new) ↔
      ∀ bs : List r.Syntax, bs.length = as.length → (∀ b ∈ bs, r.Admits b) →
        ∀ rest, Fit rest old → P (.many r bs :: rest) := by
  constructor
  · exact fun h bs length admits rest hrest => h _ (.cons ⟨rfl, length, admits⟩ hrest)
  · rintro h _ hnew
    obtain ⟨⟨r', bs⟩, rest, ⟨slot, length, admits⟩, hrest, rfl⟩ :=
      List.forall₂_cons_right_iff.mp hnew
    obtain rfl : r' = r := slot
    exact h bs length admits rest hrest

theorem forall_fit_single {a : r.Syntax} :
    (∀ new, Fit new (.single r a :: old) → P new) ↔
      ∀ b, r.Admits b → ∀ rest, Fit rest old → P (.single r b :: rest) := by
  refine forall_fit_many.trans ⟨fun h b admits => h [b] rfl (by simpa using admits), ?_⟩
  intro h bs length admits
  obtain ⟨b, rfl⟩ := List.length_eq_one_iff.mp length
  exact h b (admits b (by simp))

theorem forall_fit_optional {a : Option r.Syntax} :
    (∀ new, Fit new (.optional r a :: old) → P new) ↔
      ∀ b : Option r.Syntax, b.isSome = a.isSome → (∀ x ∈ b, r.Admits x) →
        ∀ rest, Fit rest old → P (.optional r b :: rest) := by
  refine forall_fit_many.trans ⟨fun h b same admits => ?_, fun h bs length admits => ?_⟩
  · exact h b.toList (by cases a <;> cases b <;> simp_all) (by simpa using admits)
  · match a, bs, length with
    | none, [], _ => exact h none rfl (by simp)
    | some _, [b], _ => exact h (some b) rfl (by simpa using admits)

end Rows

namespace Slot

open Rows

theorem bodyRows_bodyWith (ds : List Directive) (body : TypeBody) :
    ∀ new, Fit new (bodyRows ds body) →
      bodyRows (bodyWith new body).1 (bodyWith new body).2 = new := by
  cases body <;> simp only [bodyRows, forall_fit_many, forall_fit_nil] <;> intros <;> rfl

theorem bodyWith_bodyWith (new : Rows) (ds : List Directive) (body : TypeBody) :
    bodyWith (bodyRows ds body) (bodyWith new body).2 = (ds, body) := by
  cases body <;> rfl

theorem rows_value {k : ValueKind} (h : k ≠ .string) {v : Value} (hv : v.kind = k) :
    rows value v = [.single (valueOf k) v] := by
  subst hv
  cases v <;> first | rfl | exact absurd rfl h

theorem withRows_value {k : ValueKind} (h : k ≠ .string) {v : Value} (hv : v.kind = k)
    (new : Rows) : withRows value v new = new.one 0 (valueOf k) v := by
  subst hv
  cases v <;> first | rfl | exact absurd rfl h

theorem rows_typeDefinition {f : TypeForm} {d : TypeDefinition} (h : d.body.form = f) :
    rows typeDefinition d = [.single (typeDefinitionOf f) d] := by subst h; rfl

theorem withRows_typeDefinition {f : TypeForm} {d : TypeDefinition} (h : d.body.form = f)
    (new : Rows) : withRows typeDefinition d new = new.one 0 (typeDefinitionOf f) d := by
  subst h; rfl

theorem rows_typeExtension {f : TypeForm} {d : TypeExtension} (h : d.body.form = f) :
    rows typeExtension d = [.single (typeExtensionOf f) d] := by subst h; rfl

theorem withRows_typeExtension {f : TypeForm} {d : TypeExtension} (h : d.body.form = f)
    (new : Rows) : withRows typeExtension d new = new.one 0 (typeExtensionOf f) d := by
  subst h; rfl

/-- Other rows that fit can be put right below syntax: they are right below it then, and nothing
else changes, for putting back the rows that were there restores the syntax. -/
theorem rows_replace (r : Slot) (a : r.Syntax) :
    ∀ new, Fit new (r.rows a) →
      r.rows (r.withRows a new) = new ∧ r.withRows (r.withRows a new) (r.rows a) = a := by
  cases r
  case definition | selection =>
    cases a <;> exact forall_fit_single.mpr fun _ _ => forall_fit_nil.mpr ⟨rfl, rfl⟩
  case value =>
    by_cases h : a.kind = .string
    · cases a <;> simp only [Value.kind, reduceCtorEq] at h
      exact forall_fit_single.mpr fun _ _ => forall_fit_nil.mpr ⟨rfl, rfl⟩
    · rw [rows_value h rfl, forall_fit_single]
      intro b admits
      rw [forall_fit_nil, withRows_value h rfl, one_cons, withRows_value h admits, one_cons]
      exact ⟨rows_value h admits, rfl⟩
  case valueOf =>
    cases a with
    | list | object => exact forall_fit_many.mpr fun _ _ _ => forall_fit_nil.mpr ⟨rfl, rfl⟩
    | «variable» => exact forall_fit_single.mpr fun _ _ => forall_fit_nil.mpr ⟨rfl, rfl⟩
    | _ => exact forall_fit_nil.mpr ⟨rfl, rfl⟩
  case type =>
    match a with
    | .nullable (.named _) =>
      exact forall_fit_single.mpr fun _ _ => forall_fit_nil.mpr ⟨rfl, rfl⟩
    | .nullable (.list _ _) =>
      refine forall_fit_single.mpr fun b admits => forall_fit_nil.mpr ?_
      obtain ⟨o, e, rfl⟩ := admits
      exact ⟨rfl, rfl⟩
    | .nonNull _ _ =>
      refine forall_fit_single.mpr fun b admits => forall_fit_nil.mpr ?_
      match b, admits with
      | .nonNull _ _, _ => exact ⟨rfl, rfl⟩
  case markedType =>
    match a with
    | .named _ => exact forall_fit_single.mpr fun _ _ => forall_fit_nil.mpr ⟨rfl, rfl⟩
    | .list _ _ =>
      refine forall_fit_single.mpr fun b admits => forall_fit_nil.mpr ?_
      obtain ⟨o, e, rfl⟩ := admits
      exact ⟨rfl, rfl⟩
  case listType | nonNullType =>
    cases a <;> first
      | exact forall_fit_nil.mpr ⟨rfl, rfl⟩
      | exact forall_fit_single.mpr fun _ _ => forall_fit_nil.mpr ⟨rfl, rfl⟩
  case typeDefinition =>
    rw [rows_typeDefinition rfl, forall_fit_single]
    intro b admits
    rw [forall_fit_nil, withRows_typeDefinition rfl, one_cons, withRows_typeDefinition admits,
      one_cons]
    exact ⟨rows_typeDefinition admits, rfl⟩
  case typeExtension =>
    rw [rows_typeExtension rfl, forall_fit_single]
    intro b admits
    rw [forall_fit_nil, withRows_typeExtension rfl, one_cons, withRows_typeExtension admits,
      one_cons]
    exact ⟨rows_typeExtension admits, rfl⟩
  case typeDefinitionOf | typeExtensionOf =>
    simp only [rows, forall_fit_single, forall_fit_optional]
    intros
    simp [withRows, bodyRows_bodyWith a.directives a.body _ ‹_›, bodyWith_bodyWith]
  case string | name => exact forall_fit_nil.mpr ⟨rfl, rfl⟩
  all_goals
    cases a
    simp only [rows, forall_fit_many, forall_fit_single, forall_fit_optional, forall_fit_nil]
    intros
    simp [withRows]

theorem bodyWith_bodyRows (ds : List Directive) (body : TypeBody) :
    bodyWith (bodyRows ds body) body = (ds, body) := by
  cases body <;> rfl

/-- Putting the same rows below syntax again changes nothing. -/
theorem withRows_rows (r : Slot) (a : r.Syntax) : r.withRows a (r.rows a) = a := by
  cases r
  case definition | selection | value | valueOf | listType | markedType => cases a <;> rfl
  case type | nonNullType => rcases a with ⟨_ | _⟩ | _ <;> rfl
  case typeDefinitionOf | typeExtensionOf => simp [rows, withRows, bodyWith_bodyRows]
  all_goals cases a; simp [rows, withRows]

/-- A measure of syntax that is smaller right below. -/
noncomputable def size : (r : Slot) → r.Syntax → Nat
  | document, d => 2 * sizeOf d
  | definition, d => 2 * sizeOf d
  | operation, d => 2 * sizeOf d
  | fragment, d => 2 * sizeOf d
  | variableDefinition, d => 2 * sizeOf d
  | selectionSet, d => 2 * sizeOf d
  | selection, d => 2 * sizeOf d
  | field, d => 2 * sizeOf d
  | spread, d => 2 * sizeOf d
  | inlineFragment, d => 2 * sizeOf d
  | argument, d => 2 * sizeOf d
  | directive, d => 2 * sizeOf d
  | value, d => 2 * sizeOf d + 1
  | valueOf _, d => 2 * sizeOf d
  | string, d => 2 * sizeOf d
  | objectField, d => 2 * sizeOf d
  | type, d => 2 * sizeOf d + 1
  | markedType, d => 2 * sizeOf d + 1
  | namedType, d => 2 * sizeOf d
  | listType, d => 2 * sizeOf d
  | nonNullType, d => 2 * sizeOf d
  | schema, d => 2 * sizeOf d
  | schemaExtension, d => 2 * sizeOf d
  | rootType, d => 2 * sizeOf d
  | typeDefinition, d => 2 * sizeOf d + 1
  | typeDefinitionOf _, d => 2 * sizeOf d
  | typeExtension, d => 2 * sizeOf d + 1
  | typeExtensionOf _, d => 2 * sizeOf d
  | enumValueDefinition, d => 2 * sizeOf d
  | directiveDefinition, d => 2 * sizeOf d
  | fieldDefinition, d => 2 * sizeOf d
  | inputDefinition, d => 2 * sizeOf d
  | name, d => 2 * sizeOf d

end Slot

namespace Rows

/-- All items of some rows have a property. -/
def Forall (P : (r : Slot) → r.Syntax → Prop) (rows : Rows) : Prop :=
  ∀ row ∈ rows, ∀ a ∈ row.items, P row.slot a

variable {P Q : (r : Slot) → r.Syntax → Prop} {r : Slot} {rows : Rows}

@[simp] theorem forall_nil : Forall P [] := by simp [Forall]

@[simp] theorem forall_many {as : List r.Syntax} :
    Forall P (.many r as :: rows) ↔ (∀ a ∈ as, P r a) ∧ Forall P rows := by
  simp [Forall, Row.many]

@[simp] theorem forall_single {a : r.Syntax} :
    Forall P (.single r a :: rows) ↔ P r a ∧ Forall P rows := by
  simp [Forall, Row.single]

@[simp] theorem forall_optional {a : Option r.Syntax} :
    Forall P (.optional r a :: rows) ↔ (∀ b ∈ a, P r b) ∧ Forall P rows := by
  simp [Forall, Row.optional]

theorem Forall.mono (h : Forall P rows) (hPQ : ∀ r a, P r a → Q r a) : Forall Q rows :=
  fun row hrow a ha => hPQ row.slot a (h row hrow a ha)

/-- Rows whose items are all smaller than some size. -/
abbrev Below (n : Nat) (rows : Rows) : Prop := Forall (fun r a => r.size a < n) rows

end Rows

namespace Slot

theorem bodyRows_below (ds : List Directive) (body : TypeBody) :
    Rows.Below (2 * (sizeOf ds + sizeOf body)) (bodyRows ds body) := by
  cases body <;> simp [bodyRows, size] <;> grind [→ List.sizeOf_lt_of_mem]

/-- What stands right below syntax is smaller. -/
theorem rows_below (r : Slot) (a : r.Syntax) : Rows.Below (r.size a) (r.rows a) := by
  cases r
  case definition | selection | value | valueOf | listType | markedType =>
    cases a <;> simp [rows, size] <;> grind [→ List.sizeOf_lt_of_mem]
  case type | nonNullType =>
    rcases a with ⟨_ | _⟩ | _ <;> simp [rows, size]
    all_goals grind
  case typeDefinitionOf =>
    obtain ⟨o, description, n, ds, body⟩ := a
    refine Rows.forall_optional.mpr
      ⟨?_, Rows.forall_single.mpr ⟨?_, (bodyRows_below ds body).mono fun _ _ => ?_⟩⟩
    all_goals simp [size]
    all_goals grind
  case typeExtensionOf =>
    obtain ⟨o, n, ds, body⟩ := a
    refine Rows.forall_single.mpr ⟨?_, (bodyRows_below ds body).mono fun _ _ => ?_⟩
    all_goals simp [size]
    all_goals grind
  case string | name => simp [rows]
  case typeDefinition | typeExtension => simp [rows, size]
  case argument | objectField | rootType | namedType =>
    cases a
    simp only [rows, Rows.forall_single, Rows.forall_nil, and_true, size, Argument.mk.sizeOf_spec,
      ObjectField.mk.sizeOf_spec, RootType.mk.sizeOf_spec, NamedType.mk.sizeOf_spec]
    omega
  all_goals
    cases a
    simp [rows, size]
    grind [→ List.sizeOf_lt_of_mem]

/-- What stands right below syntax is of the sorts that its slots are for. -/
theorem rows_admits (r : Slot) (a : r.Syntax) : Rows.Forall Admits (r.rows a) := by
  cases r
  case definition | selection | value | valueOf | markedType | listType | nonNullType =>
    cases a <;> simp [rows, Admits]
  case type => rcases a with ⟨_ | _⟩ | _ <;> simp [rows, Admits, TypeRef.isNonNull]
  case typeDefinitionOf | typeExtensionOf =>
    have body : Rows.Forall Admits (bodyRows a.directives a.body) := by
      cases a.body <;> simp [bodyRows, Admits]
    simp [rows, Admits, body]
  all_goals simp [rows, Admits]

end Slot
end GraphQL
