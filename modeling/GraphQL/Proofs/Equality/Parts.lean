import GraphQL.Ast.Equality
import GraphQL.Proofs.Text.Float
import GraphQL.Proofs.Transformer.Nodes

/-! Relations of syntax that go by its parts: two pieces of syntax in a slot are related if their
origins agree, their data are equal, and what stands below them is related, row by row and item by
item. There is one such relation for each way in which origins can agree, and its laws are those of
origins and data. -/
namespace GraphQL

/-- The data of a piece of syntax other than its origin and the syntax below it. -/
inductive Datum where
  | none
  | flag (value : Bool)
  | int (value : Int32)
  | float (value : Float)
  | text (value : String)
  | string (value : String) (isBlock : Bool)
  | operation (kind : OperationKind)
  deriving BEq

namespace Slot

/-- The origin of syntax in a slot. A group has none of its own. -/
def origin : (r : Slot) → r.Syntax → Option Origin
  | document, d => d.origin
  | operation, d => d.origin
  | fragment, d => d.origin
  | variableDefinition, d => d.origin
  | selectionSet, s => s.origin
  | field, f => f.origin
  | spread, s => s.origin
  | inlineFragment, f => f.origin
  | argument, a => a.origin
  | directive, d => d.origin
  | valueOf _, v => v.origin?
  | string, s => s.origin
  | objectField, f => f.origin
  | namedType, t => t.origin
  | listType, t => t.origin?
  | nonNullType, t => t.origin?
  | schema, d => d.origin
  | schemaExtension, d => d.origin
  | rootType, t => t.origin
  | typeDefinitionOf _, d => d.origin
  | typeExtensionOf _, d => d.origin
  | enumValueDefinition, d => d.origin
  | directiveDefinition, d => d.origin
  | fieldDefinition, d => d.origin
  | inputDefinition, d => d.origin
  | name, n => n.origin
  | definition, _ | selection, _ | value, _ | type, _ | markedType, _ | typeDefinition, _
  | typeExtension, _ => none

/-- The data of syntax in a slot. -/
def datum : (r : Slot) → r.Syntax → Datum
  | operation, d => .operation d.kind
  | valueOf _, .boolean _ b => .flag b
  | valueOf _, .enum _ s => .text s
  | valueOf _, .float _ x => .float x
  | valueOf _, .int _ i => .int i
  | valueOf _, .string s => .string s.value s.isBlock
  | string, s => .string s.value s.isBlock
  | rootType, t => .operation t.operation
  | directiveDefinition, d => .flag d.isRepeatable
  | name, n => .text n.value
  | _, _ => .none

/-- What holds of syntax if it holds of all that stands right below, holds of all syntax. -/
theorem induction {P : (r : Slot) → r.Syntax → Prop}
    (step : ∀ r a, r.Admits a → (r.rows a).Forall P → P r a) (r : Slot) (a : r.Syntax)
    (admits : r.Admits a) : P r a :=
  step r a admits fun row hrow b hb => induction step row.slot b (r.rows_admits a row hrow b hb)
termination_by r.size a
decreasing_by exact r.rows_below a row hrow b hb

/-- Relations of syntax, one for each slot. -/
abbrev Relation := (r : Slot) → r.Syntax → r.Syntax → Prop

end Slot

/-! ### Rows -/

/-- Rows for the same slot, with as many items, each related to the one in its place. -/
inductive Row.Matches (R : Slot.Relation) : Row → Row → Prop
  | row {r : Slot} {as bs : List r.Syntax} (items : List.Forall₂ (R r) as bs) :
    Row.Matches R ⟨r, as⟩ ⟨r, bs⟩

section Rows

variable {R S T : Slot.Relation}

namespace Row

variable {r : Slot}

@[simp] theorem matches_many {as bs : List r.Syntax} :
    Matches R (many r as) (many r bs) ↔ List.Forall₂ (R r) as bs :=
  ⟨fun h => by cases h; assumption, .row⟩

@[simp] theorem matches_single {a b : r.Syntax} :
    Matches R (single r a) (single r b) ↔ R r a b :=
  matches_many.trans (by simp)

@[simp] theorem matches_optional {a b : Option r.Syntax} :
    Matches R (optional r a) (optional r b) ↔ Option.Rel (R r) a b :=
  matches_many.trans (by cases a <;> cases b <;> simp)

theorem Matches.slot {row row' : Row} (h : Matches R row row') : row.slot = row'.slot := by
  cases h
  rfl

theorem Matches.length {row row' : Row} (h : Matches R row row') :
    row.items.length = row'.items.length := by
  obtain ⟨items⟩ := h
  exact items.length_eq

theorem Matches.flip {row row' : Row} (h : Matches R row row') :
    Matches (fun r a b => R r b a) row' row := by
  obtain ⟨items⟩ := h
  exact .row (List.Forall₂.flip items)

end Row

/-- Related items of two lists, with the relation changed where there is such an item. -/
theorem forall₂_imp_mem {α β : Type} {p q : α → β → Prop} {as : List α} {bs : List β}
    (h : List.Forall₂ p as bs) (imp : ∀ a ∈ as, ∀ b ∈ bs, p a b → q a b) : List.Forall₂ q as bs := by
  rw [List.forall₂_iff_get] at h ⊢
  exact ⟨h.1, fun i hi hi' => imp _ (List.get_mem as _) _ (List.get_mem bs _) (h.2 i hi hi')⟩

theorem forall₂_getElem? {α β : Type} {p : α → β → Prop} {as : List α} {bs : List β}
    (h : List.Forall₂ p as bs) {i : Nat} {a : α} {b : β} (left : as[i]? = some a)
    (right : bs[i]? = some b) : p a b := by
  obtain ⟨hi, rfl⟩ := List.getElem?_eq_some_iff.mp left
  obtain ⟨hi', rfl⟩ := List.getElem?_eq_some_iff.mp right
  exact h.get hi hi'

/-- Items that are related by way of those in between. -/
theorem forall₂_comp {α β γ : Type} {p : α → β → Prop} {q : β → γ → Prop} {s : α → γ → Prop}
    {as : List α} {bs : List β} {cs : List γ} (h : List.Forall₂ p as bs) (h' : List.Forall₂ q bs cs)
    (imp : ∀ a b c, p a b → q b c → s a c) : List.Forall₂ s as cs := by
  rw [List.forall₂_iff_get] at h h' ⊢
  refine ⟨h.1.trans h'.1, fun i hi hi' => ?_⟩
  have between := h.1 ▸ hi
  exact imp _ _ _ (h.2 i hi between) (h'.2 i between hi')

namespace Rows

variable {rows rows' rows'' : Rows}

/-- Rows that match, each one the one in its place. -/
abbrev Matches (R : Slot.Relation) (rows rows' : Rows) : Prop :=
  List.Forall₂ (Row.Matches R) rows rows'

theorem Matches.mono (h : Matches R rows rows') (admits : rows'.Forall Slot.Admits)
    (imp : rows.Forall fun r a => ∀ b, r.Admits b → R r a b → S r a b) : Matches S rows rows' := by
  refine forall₂_imp_mem h fun row hrow row' hrow' related => ?_
  obtain ⟨items⟩ := related
  exact .row (forall₂_imp_mem items fun a ha b hb => imp _ hrow a ha b (admits _ hrow' b hb))

theorem Matches.comp (h : Matches R rows rows') (h' : Matches S rows' rows'')
    (imp : ∀ r a b c, R r a b → S r b c → T r a c) : Matches T rows rows'' := by
  refine forall₂_comp h h' fun row row' row'' left right => ?_
  obtain ⟨items⟩ := left
  obtain ⟨items'⟩ := right
  exact .row (forall₂_comp items items' (imp _))

theorem Matches.slots (h : Matches R rows rows') : rows.map (·.slot) = rows'.map (·.slot) := by
  induction h with
  | nil => rfl
  | cons row _ ih => rw [List.map_cons, List.map_cons, row.slot, ih]

/-- A single item on each side, for the same slot. -/
theorem matches_one {r : Slot} {a b : r.Syntax} :
    Matches R [.single r a] [.single r b] ↔ R r a b := by
  rw [Matches, List.forall₂_cons, Row.matches_single]
  simp

/-- A single item on each side, for different slots. -/
theorem not_matches_one {r r' : Slot} {a : r.Syntax} {b : r'.Syntax} (other : r ≠ r') :
    ¬ Matches R [.single r a] [.single r' b] :=
  fun h => other (List.forall₂_cons.mp h).1.slot

theorem Matches.flip (h : Matches R rows rows') : Matches (fun r a b => R r b a) rows' rows :=
  List.Forall₂.flip (h.imp fun _ _ => Row.Matches.flip)

theorem Matches.refl (h : rows.Forall fun r a => R r a a) : Matches R rows rows :=
  List.forall₂_same.mpr fun _ hrow => .row (List.forall₂_same.mpr (h _ hrow))

end Rows
end Rows

/-! ### Equality of data -/

namespace Datum

open GraphQL.Text (float_beq_symm float_beq_trans float_beq_self)

variable {d d' d'' : Datum}

@[simp] theorem none_beq : (none == none) = true := rfl

@[simp] theorem flag_beq (a b : Bool) : (flag a == flag b) = (a == b) := rfl

@[simp] theorem int_beq (a b : Int32) : (int a == int b) = (a == b) := rfl

@[simp] theorem float_beq (a b : Float) : (float a == float b) = (a == b) := rfl

@[simp] theorem text_beq (a b : String) : (text a == text b) = (a == b) := rfl

@[simp] theorem string_beq (a b : String) (c d : Bool) :
    (string a c == string b d) = (a == b && c == d) := rfl

@[simp] theorem operation_beq (a b : OperationKind) : (operation a == operation b) = (a == b) := rfl

/-- Data are equal if they are the same, but for numbers. -/
theorem eq_or_float (h : (d == d') = true) :
    d = d' ∨ ∃ x y, d = float x ∧ d' = float y ∧ (x == y) = true := by
  cases d <;> cases d' <;> first | exact .inl rfl | cases h | simp_all

theorem beq_self (number : ∀ x, d = float x → x.isNaN = false) : (d == d) = true := by
  cases d with
  | float x => exact float_beq_self (number x rfl)
  | _ => simp

theorem beq_symm (h : (d == d') = true) : (d' == d) = true := by
  rcases eq_or_float h with rfl | ⟨x, y, rfl, rfl, equal⟩
  · exact h
  · exact float_beq_symm equal

theorem beq_trans (h : (d == d') = true) (h' : (d' == d'') = true) : (d == d'') = true := by
  rcases eq_or_float h with rfl | ⟨x, y, rfl, rfl, equal⟩
  · exact h'
  · rcases eq_or_float h' with rfl | ⟨y', z, same, rfl, equal'⟩
    · exact h
    · cases same
      exact float_beq_trans equal equal'

end Datum

/-! ### Relations that go by the parts -/

/-- Floats that are no numbers. -/
def Node.isNaN : Node → Bool
  | .value (.float _ x) => x.isNaN
  | _ => false

/-- Syntax in which all floats are numbers. -/
def Slot.Numeric (r : Slot) (a : r.Syntax) : Prop :=
  ∀ n ∈ (r.node a).tree.preorder, n.isNaN = false

/-- Two pieces of syntax in a slot that differ in some place, and not in an origin. -/
inductive Differ : (r : Slot) → r.Syntax → r.Syntax → Prop
  /-- Different data, such as the values of two names or the kinds of two operations. -/
  | data {r : Slot} {a b : r.Syntax} (unequal : (r.datum a == r.datum b) = false) : Differ r a b
  /-- Rows for different slots, as below a scalar and below an enum in the slot for any type. -/
  | slots {r : Slot} {a b : r.Syntax}
    (unequal : (r.rows a).map (·.slot) ≠ (r.rows b).map (·.slot)) : Differ r a b
  /-- More items in one row than in the other, or an optional one in only one of them. -/
  | length {r : Slot} {a b : r.Syntax} {i : Nat} {row row' : Row} (left : (r.rows a)[i]? = some row)
    (right : (r.rows b)[i]? = some row') (unequal : row.items.length ≠ row'.items.length) :
    Differ r a b
  /-- Items in the same place that differ. -/
  | item {r s : Slot} {a b : r.Syntax} {i j : Nat} {as bs : List s.Syntax} {a' b' : s.Syntax}
    (left : (r.rows a)[i]? = some ⟨s, as⟩) (right : (r.rows b)[i]? = some ⟨s, bs⟩)
    (left' : as[j]? = some a') (right' : bs[j]? = some b') (below : Differ s a' b') : Differ r a b

/-- A relation of syntax that goes by its parts, given when origins agree. -/
def Slot.Relation.ByParts (R : Slot.Relation) (agree : Option Origin → Option Origin → Prop) :
    Prop :=
  ∀ (r : Slot) (a b : r.Syntax), r.Admits a → r.Admits b →
    (R r a b ↔ agree (r.origin a) (r.origin b) ∧ (r.datum a == r.datum b) = true ∧
      Rows.Matches R (r.rows a) (r.rows b))

namespace Slot

/-- What stands right below has its nodes among those of the whole. -/
theorem preorder_below {r : Slot} {a : r.Syntax} (admits : r.Admits a) {row : Row}
    (hrow : row ∈ r.rows a) {b : row.slot.Syntax} (hb : b ∈ row.items) :
    (row.slot.node b).tree.preorder ⊆ (r.node a).tree.preorder := by
  have here : row.slot.node b ∈ r.nodes a :=
    List.mem_flatMap.mpr ⟨row, hrow, List.mem_map_of_mem hb⟩
  by_cases group : r.isGroup = true
  · rw [nodes_of_group group, List.mem_singleton] at here
    rw [here]
    exact List.Subset.refl _
  · intro n hn
    rw [tree_node (Bool.eq_false_iff.mpr group) a admits, Tree.preorder, Tree.preorderOf_eq_flatMap]
    exact List.mem_cons_of_mem _ (List.mem_flatMap.mpr ⟨_, List.mem_map_of_mem here, hn⟩)

/-- All data of numeric syntax equal themselves. -/
theorem Numeric.datum {r : Slot} {a : r.Syntax} (numeric : r.Numeric a) :
    (r.datum a == r.datum a) = true := by
  refine Datum.beq_self fun x h => ?_
  cases r
  case valueOf k =>
    cases a with
    | float o y =>
      cases h
      exact numeric (.value (.float o x)) (by rw [Node.preorder_tree]; exact List.mem_cons_self)
    | _ => cases h
  all_goals cases h

theorem origin_of_group {r : Slot} (group : r.isGroup) (a : r.Syntax) : r.origin a = none := by
  cases r <;> first | rfl | simp [isGroup] at group

theorem datum_of_group {r : Slot} (group : r.isGroup) (a : r.Syntax) : r.datum a = .none := by
  cases r <;> first | rfl | simp [isGroup] at group

/-- In the slot for any type, types are related if they are of one form and related there. -/
theorem Relation.iff_of_typeDefinition {R : Relation} {a b : TypeDefinition}
    (forms : R typeDefinition a b → a.body.form = b.body.form)
    (there : ∀ f, R typeDefinition a b ↔ R (typeDefinitionOf f) a b) :
    R typeDefinition a b ↔ Rows.Matches R (rows typeDefinition a) (rows typeDefinition b) := by
  by_cases form : a.body.form = b.body.form
  · rw [rows_typeDefinition form, rows_typeDefinition rfl]
    exact (there _).trans (Rows.matches_one (r := typeDefinitionOf b.body.form)).symm
  · refine iff_of_false (fun h => form (forms h)) ?_
    exact Rows.not_matches_one fun h => form (typeDefinitionOf.inj h)

/-- So are extensions in the slot for any of them. -/
theorem Relation.iff_of_typeExtension {R : Relation} {a b : TypeExtension}
    (forms : R typeExtension a b → a.body.form = b.body.form)
    (there : ∀ f, R typeExtension a b ↔ R (typeExtensionOf f) a b) :
    R typeExtension a b ↔ Rows.Matches R (rows typeExtension a) (rows typeExtension b) := by
  by_cases form : a.body.form = b.body.form
  · rw [rows_typeExtension form, rows_typeExtension rfl]
    exact (there _).trans (Rows.matches_one (r := typeExtensionOf b.body.form)).symm
  · refine iff_of_false (fun h => form (forms h)) ?_
    exact Rows.not_matches_one fun h => form (typeExtensionOf.inj h)

/-- In a group, a relation that goes by the parts is that of the sorts in it. -/
theorem Relation.byParts_of {R : Relation} {agree : Option Origin → Option Origin → Prop}
    (missing : agree none none)
    (groups : ∀ r : Slot, r.isGroup → ∀ a b : r.Syntax, R r a b ↔
      Rows.Matches R (r.rows a) (r.rows b))
    (sorts : ∀ r : Slot, r.isGroup = false → ∀ a b : r.Syntax, r.Admits a → r.Admits b →
      (R r a b ↔ agree (r.origin a) (r.origin b) ∧ (r.datum a == r.datum b) = true ∧
        Rows.Matches R (r.rows a) (r.rows b))) : R.ByParts agree := by
  intro r a b ha hb
  cases group : r.isGroup with
  | false => exact sorts r group a b ha hb
  | true =>
    rw [origin_of_group group, origin_of_group group, datum_of_group group, datum_of_group group]
    exact (groups r group a b).trans ⟨fun h => ⟨missing, rfl, h⟩, fun h => h.2.2⟩

namespace Relation.ByParts

variable {R R' : Relation} {agree agree' : Option Origin → Option Origin → Prop} {r : Slot}

/-- The more origins agree, the more syntax is related. -/
theorem mono (h : R.ByParts agree) (h' : R'.ByParts agree')
    (weaker : ∀ o o', agree o o' → agree' o o') {a b : r.Syntax} (ha : r.Admits a) (hb : r.Admits b)
    (related : R r a b) : R' r a b := by
  refine Slot.induction (P := fun r a => ∀ b, r.Admits b → R r a b → R' r a b) ?_ r a ha b hb related
  intro r a ha below b hb related
  obtain ⟨origins, data, rows⟩ := (h r a b ha hb).mp related
  exact (h' r a b ha hb).mpr ⟨weaker _ _ origins, data, rows.mono (r.rows_admits b) below⟩

/-- There is only one relation for each way in which origins agree. -/
theorem unique (h : R.ByParts agree) (h' : R'.ByParts agree) {a b : r.Syntax} (ha : r.Admits a)
    (hb : r.Admits b) : R r a b ↔ R' r a b :=
  ⟨h.mono h' (fun _ _ => id) ha hb, h'.mono h (fun _ _ => id) ha hb⟩

theorem refl (h : R.ByParts agree) (same : ∀ o, agree o o) {a : r.Syntax} (ha : r.Admits a)
    (numeric : r.Numeric a) : R r a a := by
  refine Slot.induction (P := fun r a => r.Numeric a → R r a a) ?_ r a ha numeric
  intro r a ha below numeric
  refine (h r a a ha ha).mpr ⟨same _, numeric.datum, Rows.Matches.refl fun row hrow b hb => ?_⟩
  exact below row hrow b hb fun n hn => numeric n (preorder_below ha hrow hb hn)

theorem flip (h : R.ByParts agree) :
    Relation.ByParts (fun r a b => R r b a) fun o o' => agree o' o := by
  intro r a b ha hb
  refine (h r b a hb ha).trans (and_congr_right' (and_congr ?_ ?_))
  · exact ⟨Datum.beq_symm, Datum.beq_symm⟩
  · exact ⟨Rows.Matches.flip, Rows.Matches.flip⟩

theorem symm (h : R.ByParts agree) (reversed : ∀ o o', agree o o' → agree o' o) {a b : r.Syntax}
    (ha : r.Admits a) (hb : r.Admits b) (related : R r a b) : R r b a :=
  h.mono h.flip reversed ha hb related

theorem trans (h : R.ByParts agree) (joined : ∀ o o' o'', agree o o' → agree o' o'' → agree o o'')
    {a b c : r.Syntax} (ha : r.Admits a) (hb : r.Admits b) (hc : r.Admits c) (first : R r a b)
    (second : R r b c) : R r a c := by
  refine Slot.induction (P := fun r a => ∀ b, r.Admits b → R r a b → ∀ c, r.Admits c → R r b c →
    R r a c) ?_ r a ha b hb first c hc second
  intro r a ha below b hb first c hc second
  obtain ⟨origins, data, rows⟩ := (h r a b ha hb).mp first
  obtain ⟨origins', data', rows'⟩ := (h r b c hb hc).mp second
  refine (h r a c ha hc).mpr ⟨joined _ _ _ origins origins', Datum.beq_trans data data', ?_⟩
  have left := rows.mono (r.rows_admits b) below
  have right : Rows.Matches (fun r b c => r.Admits c ∧ R r b c) (r.rows b) (r.rows c) :=
    rows'.mono (r.rows_admits c) fun _ _ _ _ c hc related => ⟨hc, related⟩
  exact left.comp right fun _ _ _ c next second => next c second.1 second.2

/-- Syntax that differs in some place is not related. -/
theorem not_of_differ (h : R.ByParts agree) {a b : r.Syntax} (ha : r.Admits a) (hb : r.Admits b)
    (differ : Differ r a b) : ¬ R r a b := by
  induction differ with
  | data unequal =>
    intro related
    obtain ⟨-, data, -⟩ := (h _ _ _ ha hb).mp related
    rw [data] at unequal
    cases unequal
  | slots unequal =>
    intro related
    obtain ⟨-, -, rows⟩ := (h _ _ _ ha hb).mp related
    exact unequal rows.slots
  | length left right unequal =>
    intro related
    obtain ⟨-, -, rows⟩ := (h _ _ _ ha hb).mp related
    exact unequal (forall₂_getElem? rows left right).length
  | @item r s a b i j as bs a' b' left right left' right' below ih =>
    intro related
    obtain ⟨-, -, rows⟩ := (h _ _ _ ha hb).mp related
    have admits := r.rows_admits a _ (List.mem_of_getElem? left) a' (List.mem_of_getElem? left')
    have admits' := r.rows_admits b _ (List.mem_of_getElem? right) b' (List.mem_of_getElem? right')
    cases forall₂_getElem? rows left right with
    | row items => exact ih admits admits' (forall₂_getElem? items left' right')

/-- Syntax that does not differ is related, if origins do not count. -/
theorem of_not_differ (h : R.ByParts fun _ _ => True) {a b : r.Syntax} (ha : r.Admits a)
    (hb : r.Admits b) (alike : ¬ Differ r a b) : R r a b := by
  refine Slot.induction (P := fun r a => ∀ b, r.Admits b → ¬ Differ r a b → R r a b) ?_ r a ha b hb
    alike
  intro r a ha below b hb alike
  refine (h r a b ha hb).mpr ⟨trivial, ?_, ?_⟩
  · by_contra unequal
    exact alike (.data (Bool.eq_false_iff.mpr unequal))
  have slots : (r.rows a).map (·.slot) = (r.rows b).map (·.slot) := by
    by_contra unequal
    exact alike (.slots unequal)
  refine List.forall₂_iff_get.mpr ⟨by simpa using congrArg List.length slots, fun i hi hi' => ?_⟩
  have left : (r.rows a)[i]? = some (r.rows a)[i] := List.getElem?_eq_getElem hi
  have right : (r.rows b)[i]? = some (r.rows b)[i] := List.getElem?_eq_getElem hi'
  have slot : (r.rows a)[i].slot = (r.rows b)[i].slot := by
    have here := congrArg (·[i]?) slots
    simpa [left, right] using here
  have below := below _ (List.getElem_mem hi)
  have admits := r.rows_admits b _ (List.getElem_mem hi')
  simp only [List.get_eq_getElem]
  generalize (r.rows a)[i] = row, (r.rows b)[i] = row' at *
  obtain ⟨s, as⟩ := row
  obtain ⟨s', bs⟩ := row'
  cases slot
  refine .row (List.forall₂_iff_get.mpr ⟨?_, fun j hj hj' => ?_⟩)
  · by_contra unequal
    exact alike (.length left right unequal)
  · refine below _ (List.get_mem as _) _ (admits _ (List.get_mem bs _)) fun differ => alike ?_
    exact .item left right (List.getElem?_eq_getElem hj) (List.getElem?_eq_getElem hj') differ

end Relation.ByParts
end Slot
end GraphQL
