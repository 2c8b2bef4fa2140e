import GraphQL.Proofs.Transformer.Slots

/-! The steps of a transformer, one for each slot: the hook for the slot around steps for what
stands right below. -/
namespace GraphQL

namespace Transformer

variable {m : Type → Type}

/-- The hook for a slot. -/
def hook (T : Transformer m) : (r : Slot) → Hook m r.Syntax
  | .document => T.document
  | .definition => T.definition
  | .operation => T.operation
  | .fragment => T.fragment
  | .variableDefinition => T.variableDefinition
  | .selectionSet => T.selectionSet
  | .selection => T.selection
  | .field => T.field
  | .spread => T.spread
  | .inlineFragment => T.inlineFragment
  | .argument => T.argument
  | .directive => T.directive
  | .value => T.value
  | .valueOf k => T.valueOf k
  | .string => T.string
  | .objectField => T.objectField
  | .type => T.type
  | .markedType => T.markedType
  | .namedType => T.namedType
  | .listType => T.listType
  | .nonNullType => T.nonNullType
  | .schema => T.schema
  | .schemaExtension => T.schemaExtension
  | .rootType => T.rootType
  | .typeDefinition => T.typeDefinition
  | .typeDefinitionOf f => T.typeDefinitionOf f
  | .typeExtension => T.typeExtension
  | .typeExtensionOf f => T.typeExtensionOf f
  | .enumValueDefinition => T.enumValueDefinition
  | .directiveDefinition => T.directiveDefinition
  | .fieldDefinition => T.fieldDefinition
  | .inputDefinition => T.inputDefinition
  | .name => T.name

variable [Monad m]

/-- What the hook for one sort of values does unless it is overridden. -/
def onContents (T : Transformer m) : Value → m (Replacement Value)
  | .list o vs => do return (Replacement.ofList vs (← T.onValues vs)).map (.list o)
  | .object o fs => do return (Replacement.ofList fs (← T.onObjectFields fs)).map (.object o)
  | .variable o n => do return (← T.onName n).map (.variable o)
  | _ => return none

/-- What the hook for lists of types does unless it is overridden. -/
def onElement (T : Transformer m) : NullableType → m (Replacement NullableType)
  | .list o e => do return (← T.onType e).map (.list o)
  | .named _ => return none

/-- What the hook for marked types does unless it is overridden. -/
def onMarked (T : Transformer m) : TypeRef → m (Replacement TypeRef)
  | .nonNull o t => do return (← T.markedType t (T.onNullable t)).map (.nonNull o)
  | .nullable _ => return none

/-- What the hook for one form of type definitions does unless it is overridden. -/
def onDefinedType (T : Transformer m) (d : TypeDefinition) : m (Replacement TypeDefinition) := do
  let description ← onOption T.onString d.description
  let name ← T.onName d.name
  let (directives, body) ← T.onTypeBody d.directives d.body
  if description.isNone && name.isNone && directives.isNone && body.isNone then return none
  else return some { d with
    description := description.applyTo d.description, name := name.applyTo d.name,
    directives := directives.applyTo d.directives, body := body.applyTo d.body }

/-- What the hook for one form of type extensions does unless it is overridden. -/
def onExtendedType (T : Transformer m) (d : TypeExtension) : m (Replacement TypeExtension) := do
  let name ← T.onName d.name
  let (directives, body) ← T.onTypeBody d.directives d.body
  if name.isNone && directives.isNone && body.isNone then return none
  else return some { d with
    name := name.applyTo d.name, directives := directives.applyTo d.directives,
    body := body.applyTo d.body }

/-- What a transformer does with syntax in a slot. -/
def step (T : Transformer m) : (r : Slot) → (a : r.Syntax) → m (Replacement r.Syntax)
  | .document, d => T.onDocument d
  | .definition, d => T.onDefinition d
  | .operation, d => T.onOperation d
  | .fragment, d => T.onFragment d
  | .variableDefinition, d => T.onVariableDefinition d
  | .selectionSet, s => T.onSelectionSet s
  | .selection, s => T.onSelection s
  | .field, f => T.onField f
  | .spread, s => T.onSpread s
  | .inlineFragment, f => T.onInlineFragment f
  | .argument, a => T.onArgument a
  | .directive, d => T.onDirective d
  | .value, v => T.onValue v
  | .valueOf k, v => T.valueOf k v (T.onContents v)
  | .string, s => T.onString s
  | .objectField, f => T.onObjectField f
  | .type, t => T.onType t
  | .markedType, t => T.markedType t (T.onNullable t)
  | .namedType, t => T.onNamedType t
  | .listType, t => T.listType t (T.onElement t)
  | .nonNullType, t => T.nonNullType t (T.onMarked t)
  | .schema, d => T.onSchema d
  | .schemaExtension, d => T.onSchemaExtension d
  | .rootType, t => T.onRootType t
  | .typeDefinition, d => T.onTypeDefinition d
  | .typeDefinitionOf f, d => T.typeDefinitionOf f d (T.onDefinedType d)
  | .typeExtension, d => T.onTypeExtension d
  | .typeExtensionOf f, d => T.typeExtensionOf f d (T.onExtendedType d)
  | .enumValueDefinition, d => T.onEnumValueDefinition d
  | .directiveDefinition, d => T.onDirectiveDefinition d
  | .fieldDefinition, d => T.onFieldDefinition d
  | .inputDefinition, d => T.onInputDefinition d
  | .name, n => T.onName n

end Transformer

namespace Replacement

variable {α β : Type}

theorem isNone_ofList (as : List α) (rs : List (Replacement α)) :
    (ofList as rs).isNone = noneOf rs := by
  simp only [ofList]
  cases noneOf rs <;> rfl

theorem head?_applyTo (a : Option α) (r : Replacement (List α)) :
    applyTo a (r.map List.head?) = (r.applyTo a.toList).head? := by
  cases r with
  | none => exact Option.head?_toList.symm
  | some as => rfl

@[simp] theorem applyTo_none (a : α) : applyTo a none = a := rfl

@[simp] theorem applyTo_some (a b : α) : applyTo a (some b) = b := rfl

theorem applyTo_map (f : α → β) (a : α) (r : Replacement α) :
    applyTo (f a) (r.map f) = f (r.applyTo a) := by
  cases r <;> rfl

end Replacement

/-- A row of syntax and what a transformer answered for each item. -/
structure Answers where
  row : Row
  changes : List (Replacement row.slot.Syntax)

namespace Answers

/-- No item was replaced. -/
def unchanged (x : Answers) : Bool := Replacement.noneOf x.changes

/-- The row with replacements in the place of what they replace. -/
def applied (x : Answers) : Row :=
  ⟨x.row.slot, (Replacement.ofList x.row.items x.changes).applyTo x.row.items⟩

variable (r : Slot)

@[simp] theorem unchanged_single (a : r.Syntax) (c : Replacement r.Syntax) :
    unchanged ⟨.single r a, [c]⟩ = c.isNone :=
  Bool.and_true _

@[simp] theorem unchanged_many (as : List r.Syntax) (cs : List (Replacement r.Syntax)) :
    unchanged ⟨.many r as, cs⟩ = (Replacement.ofList as cs).isNone :=
  (Replacement.isNone_ofList as cs).symm

@[simp] theorem unchanged_optional (a : Option r.Syntax) (cs : List (Replacement r.Syntax)) :
    unchanged ⟨.optional r a, cs⟩ = (Replacement.ofList a.toList cs).isNone :=
  (Replacement.isNone_ofList a.toList cs).symm

@[simp] theorem applied_single (a : r.Syntax) (c : Replacement r.Syntax) :
    applied ⟨.single r a, [c]⟩ = .single r (c.applyTo a) := by
  cases c <;> rfl

@[simp] theorem applied_many (as : List r.Syntax) (cs : List (Replacement r.Syntax)) :
    applied ⟨.many r as, cs⟩ = .many r ((Replacement.ofList as cs).applyTo as) := rfl

@[simp] theorem applied_optional (a : Option r.Syntax) (cs : List (Replacement r.Syntax)) :
    applied ⟨.optional r a, cs⟩ = .many r ((Replacement.ofList a.toList cs).applyTo a.toList) :=
  rfl

end Answers

/-- The replacement of syntax from the answers for what is right below it. -/
def Slot.patch (r : Slot) (a : r.Syntax) (answers : List Answers) : Replacement r.Syntax :=
  if answers.all Answers.unchanged then none else some (r.withRows a (answers.map Answers.applied))

namespace Transformer

variable {m : Type → Type} [Monad m] [LawfulMonad m]

/-- Transforms the items of a row. -/
def onRow (T : Transformer m) (row : Row) : m Answers := do
  return ⟨row, ← row.items.mapM (T.step row.slot)⟩

@[simp] theorem onRow_single (T : Transformer m) (r : Slot) (a : r.Syntax) :
    T.onRow (.single r a) = do return ⟨.single r a, [← T.step r a]⟩ := by
  simp [onRow, Row.single]

omit [LawfulMonad m] in
@[simp] theorem onRow_many (T : Transformer m) (r : Slot) (as : List r.Syntax) :
    T.onRow (.many r as) = do return ⟨.many r as, ← as.mapM fun a => T.step r a⟩ := rfl

omit [LawfulMonad m] in
@[simp] theorem onRow_optional (T : Transformer m) (r : Slot) (a : Option r.Syntax) :
    T.onRow (.optional r a) =
      do return ⟨.optional r a, ← a.toList.mapM fun a => T.step r a⟩ := rfl

theorem onOption_eq {α : Type} (f : α → m (Replacement α)) (a : Option α) :
    onOption f a =
      do return (Replacement.ofList a.toList (← a.toList.mapM f)).map List.head? := by
  cases a with
  | none => simp [onOption, Replacement.ofList, Replacement.noneOf]
  | some a =>
    simp only [onOption, Option.toList, List.mapM_cons, List.mapM_nil, bind_assoc, pure_bind]
    congr; funext r; cases r <;> rfl

theorem onValues_eq (T : Transformer m) (vs : List Value) : T.onValues vs = vs.mapM T.onValue := by
  induction vs with
  | nil => unfold onValues; rfl
  | cons v vs ih => unfold onValues; rw [List.mapM_cons, ih]

theorem onObjectFields_eq (T : Transformer m) (fs : List ObjectField) :
    T.onObjectFields fs = fs.mapM T.onObjectField := by
  induction fs with
  | nil => unfold onObjectFields; rfl
  | cons f fs ih => unfold onObjectFields; rw [List.mapM_cons, ih]

theorem onSelections_eq (T : Transformer m) (ss : List Selection) :
    T.onSelections ss = ss.mapM T.onSelection := by
  induction ss with
  | nil => unfold onSelections; rfl
  | cons s ss ih => unfold onSelections; rw [List.mapM_cons, ih]

omit [LawfulMonad m] in
theorem onOptionalSelectionSet_eq (T : Transformer m) (s : Option SelectionSet) :
    T.onOptionalSelectionSet s = onOption T.onSelectionSet s := by
  cases s <;> unfold onOptionalSelectionSet <;> rfl

section Parts

variable (T : Transformer m) {r q : Slot} {a : r.Syntax}

/-- What a transformer does right below syntax in a slot. -/
abbrev below (T : Transformer m) (r : Slot) (a : r.Syntax) : m (Replacement r.Syntax) := do
  return r.patch a (← (r.rows a).mapM T.onRow)

theorem below_nil (h : r.rows a = []) : T.below r a = pure none := by
  simp [below, h, Slot.patch]

theorem below_single {b : q.Syntax} {f : q.Syntax → r.Syntax} (h : r.rows a = [.single q b])
    (hf : ∀ c, r.withRows a [.single q c] = f c) :
    T.below r a = do return (← T.step q b).map f := by
  simp only [below, h, List.mapM_cons, List.mapM_nil, onRow_single, bind_assoc, pure_bind,
    Slot.patch, List.map_cons, List.map_nil, Answers.applied_single, hf]
  congr
  funext c
  cases c <;> rfl

theorem below_many {bs : List q.Syntax} {f : List q.Syntax → r.Syntax}
    (h : r.rows a = [.many q bs]) (hf : ∀ cs, r.withRows a [.many q cs] = f cs) :
    T.below r a = do return (Replacement.ofList bs (← bs.mapM (T.step q))).map f := by
  simp only [below, h, List.mapM_cons, List.mapM_nil, onRow_many, bind_assoc, pure_bind,
    Slot.patch, List.map_cons, List.map_nil, Answers.applied_many, hf, List.all_cons,
    List.all_nil, Answers.unchanged_many, Bool.and_true]
  congr
  funext cs
  cases Replacement.ofList bs cs <;> rfl

end Parts

theorem onTypeBody_bind {β : Type} (T : Transformer m) (ds : List Directive) (body : TypeBody)
    (k : Bool → List Directive × TypeBody → m β) :
    (do
      let (directives, new) ← T.onTypeBody ds body
      k (directives.isNone && new.isNone) (directives.applyTo ds, new.applyTo body)) =
    (do
      let answers ← (Slot.bodyRows ds body).mapM T.onRow
      k (answers.all (·.unchanged)) (Slot.bodyWith (answers.map (·.applied)) body)) := by
  cases body with
  | object is fs | interface is fs =>
    simp only [onTypeBody, Slot.bodyRows, Slot.bodyWith, onList, onDirectives, step,
      List.mapM_cons, List.mapM_nil, onRow_many, bind_assoc, pure_bind]
    congr; funext cs; congr; funext ds'; congr; funext cs'
    cases h : Replacement.ofList is cs <;> cases h' : Replacement.ofList fs cs' <;>
      simp [h, h', Replacement.applyTo]
  | _ =>
    simp [onTypeBody, Slot.bodyRows, Slot.bodyWith, onList, onDirectives, step,
      Replacement.applyTo_map]

section Groups

variable (T : Transformer m)

theorem step_value (v : Value) : T.step .value v = T.hook .value v (T.below .value v) := by
  cases v
  case string => rw [below_single T rfl fun _ => rfl]; simp only [step, onValue]; rfl
  all_goals
    rw [below_single (r := .value) (q := .valueOf _) (f := id) T rfl fun _ => rfl]
    simp only [step, onValue, onContents, Option.map_id_fun, id_eq, bind_pure]
    rfl

theorem onContents_eq (k : ValueKind) (v : Value) : T.onContents v = T.below (.valueOf k) v := by
  cases v
  case list => rw [below_many T rfl fun _ => rfl]; simp only [onContents, onValues_eq]; rfl
  case object => rw [below_many T rfl fun _ => rfl]; simp only [onContents, onObjectFields_eq]; rfl
  case «variable» => rw [below_single T rfl fun _ => rfl]; rfl
  all_goals rw [below_nil T rfl]; rfl

theorem onNullable_eq (t : NullableType) : T.onNullable t = T.below .markedType t := by
  cases t
  case named => rw [below_single T rfl fun _ => rfl]; simp only [onNullable]; rfl
  case list =>
    rw [below_single (r := .markedType) (q := .listType) (f := id) T rfl fun _ => rfl]
    simp only [step, onNullable, onElement, Option.map_id_fun, id_eq, bind_pure]

theorem step_type (t : TypeRef) : T.step .type t = T.hook .type t (T.below .type t) := by
  match t with
  | .nullable (.named _) =>
    rw [below_single T rfl fun _ => rfl]; simp [step, onType, onNullable]; rfl
  | .nullable (.list _ _) =>
    rw [below_single T rfl fun _ => rfl]; simp only [step, onType, onNullable]; rfl
  | .nonNull _ _ =>
    rw [below_single (r := .type) (q := .nonNullType) (f := id) T rfl fun _ => rfl]
    simp only [step, onType, onMarked, Option.map_id_fun, id_eq, bind_pure]
    rfl

theorem step_typeDefinition (d : TypeDefinition) :
    T.step .typeDefinition d = T.hook .typeDefinition d (T.below .typeDefinition d) := by
  rw [below_single (r := .typeDefinition) (q := .typeDefinitionOf _) (f := id) T rfl fun c => by
    rw [Slot.withRows_typeDefinition rfl, Rows.one_cons]; rfl]
  simp only [step, Option.map_id_fun, id_eq, bind_pure]
  rfl

theorem step_typeExtension (d : TypeExtension) :
    T.step .typeExtension d = T.hook .typeExtension d (T.below .typeExtension d) := by
  rw [below_single (r := .typeExtension) (q := .typeExtensionOf _) (f := id) T rfl fun c => by
    rw [Slot.withRows_typeExtension rfl, Rows.one_cons]; rfl]
  simp only [step, Option.map_id_fun, id_eq, bind_pure]
  rfl

theorem onDefinedType_eq (f : TypeForm) (d : TypeDefinition) :
    T.onDefinedType d = T.below (.typeDefinitionOf f) d := by
  simp only [below, Slot.rows, List.mapM_cons, onRow_optional, onRow_single, bind_assoc,
    pure_bind, Slot.patch, List.all_cons, List.map_cons, Slot.withRows, List.drop_succ_cons,
    List.drop_zero, step, onDefinedType, onOption_eq]
  congr
  funext cs
  congr
  funext name
  have body := T.onTypeBody_bind d.directives d.body fun same parts =>
    if ((Replacement.ofList d.description.toList cs).isNone && name.isNone) && same then
      pure none
    else
      pure (some { d with
        description :=
          ((Replacement.ofList d.description.toList cs).applyTo d.description.toList).head?
        name := name.applyTo d.name, directives := parts.1, body := parts.2 })
  simpa [-bind_pure_comp, apply_ite, and_assoc, Replacement.head?_applyTo, Rows.optional]
    using body

theorem onExtendedType_eq (f : TypeForm) (d : TypeExtension) :
    T.onExtendedType d = T.below (.typeExtensionOf f) d := by
  simp only [below, Slot.rows, List.mapM_cons, onRow_single, bind_assoc, pure_bind, Slot.patch,
    List.all_cons, List.map_cons, Slot.withRows, List.drop_succ_cons, List.drop_zero, step,
    onExtendedType]
  congr
  funext name
  have body := T.onTypeBody_bind d.directives d.body fun same parts =>
    if name.isNone && same then pure none
    else
      pure (some { d with
        name := name.applyTo d.name, directives := parts.1, body := parts.2 })
  simpa [-bind_pure_comp, apply_ite, and_assoc] using body

end Groups

/-- A step is the hook around steps for what stands right below. -/
theorem step_eq (T : Transformer m) (r : Slot) (a : r.Syntax) :
    T.step r a = T.hook r a (T.below r a) := by
  cases r
  case string | name => rw [below_nil T rfl]; rfl
  case definition => cases a <;> rw [below_single T rfl fun _ => rfl] <;> rfl
  case selection =>
    cases a <;> rw [below_single T rfl fun _ => rfl] <;> simp only [step, onSelection] <;> rfl
  case value => exact T.step_value a
  case valueOf k => exact congrArg (T.valueOf k a) (T.onContents_eq k a)
  case type => exact T.step_type a
  case markedType => exact congrArg (T.markedType a) (T.onNullable_eq a)
  case listType | nonNullType =>
    cases a <;> first
      | rw [below_nil T rfl]; rfl
      | rw [below_single T rfl fun _ => rfl]; rfl
  case document => rw [below_many T rfl fun _ => rfl]; simp [step, onDocument, onList]; rfl
  case selectionSet =>
    cases a
    rw [below_many T rfl fun _ => rfl]
    simp [step, onSelectionSet, onSelections_eq]
    rfl
  case namedType | rootType => rw [below_single T rfl fun _ => rfl]; rfl
  case typeDefinition => exact T.step_typeDefinition a
  case typeDefinitionOf f => exact congrArg (T.typeDefinitionOf f a) (T.onDefinedType_eq f a)
  case typeExtension => exact T.step_typeExtension a
  case typeExtensionOf f => exact congrArg (T.typeExtensionOf f a) (T.onExtendedType_eq f a)
  case field | inlineFragment | objectField =>
    cases a
    conv_lhs => simp only [step, onField, onInlineFragment, onObjectField]
    simp [-bind_pure_comp, below, step, hook, Slot.rows, Slot.patch, Slot.withRows, onList,
      onDirectives, onOption_eq, onOptionalSelectionSet_eq, apply_ite, Replacement.head?_applyTo,
      Rows.optional, and_assoc]
  all_goals
    conv_lhs =>
      simp only [step, onOperation, onFragment, onSpread, onArgument, onDirective,
        onVariableDefinition, onSchema, onSchemaExtension, onEnumValueDefinition,
        onDirectiveDefinition, onFieldDefinition, onInputDefinition]
    simp [-bind_pure_comp, below, step, hook, Slot.rows, Slot.patch, Slot.withRows, onList,
      onDirectives, onOption_eq, apply_ite, Replacement.head?_applyTo, Rows.optional, and_assoc]

end Transformer
end GraphQL
