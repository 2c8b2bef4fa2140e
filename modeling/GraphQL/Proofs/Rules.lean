import GraphQL.Ast.DirectiveLocation
import GraphQL.Node
import GraphQL.Text.Character

/-! Rules for documents: which names are allowed where, where variables may stand, what may not be
empty, and how deep things may nest. All of them are about nodes and the trees below them. -/
namespace GraphQL

/-- The words that can be names. -/
def IsName (word : String) : Prop :=
  ∃ c cs, word.toList = c :: cs ∧ Text.isNameStart c = true ∧
    ∀ x ∈ cs, Text.isNameContinue x = true

theorem isName_iff {word : String} :
    IsName word ↔ (match word.toList with
      | [] => false
      | c :: cs => Text.isNameStart c && cs.all Text.isNameContinue) = true := by
  unfold IsName
  cases word.toList with
  | nil => simp
  | cons c cs =>
    simp only [List.cons.injEq, Bool.and_eq_true, List.all_eq_true]
    constructor
    · rintro ⟨_, _, ⟨rfl, rfl⟩, start, rest⟩
      exact ⟨start, rest⟩
    · rintro ⟨start, rest⟩
      exact ⟨c, cs, ⟨rfl, rfl⟩, start, rest⟩

instance : DecidablePred IsName := fun _ => decidable_of_iff' _ isName_iff

/-- The words that values give a meaning of their own. -/
def literalWords : List String := ["true", "false", "null"]

namespace Tree

variable {α : Type}

mutual

/-- The labels on each way from the root down to a leaf. -/
def branches : Tree α → List (List α)
  | node a [] => [[a]]
  | node a (t :: ts) => (t.branches ++ branchesOf ts).map (a :: ·)

/-- The labels on the ways down each tree of a row. -/
def branchesOf : List (Tree α) → List (List α)
  | [] => []
  | t :: ts => t.branches ++ branchesOf ts

end

/-- No variable is used at any depth. -/
def IsConst (t : Tree Node) : Prop := ∀ n ∈ t.preorder, n.kind ≠ .value .variable

end Tree

/-- Directives whose arguments use no variables. -/
def AllConst (ds : List Directive) : Prop := ∀ d ∈ ds, d.tree.IsConst

namespace Node

/-- Nodes that count as a level of nesting: selection sets, values and list types. -/
def nests (n : Node) : Bool :=
  match n.kind with
  | .selectionSet | .value _ | .listType => true
  | _ => false

/-- The rules that a node itself is subject to. -/
def IsLawful : Node → Prop
  | document d => d.definitions ≠ []
  | name n => IsName n.value
  | value (.enum _ text) => IsName text ∧ text ∉ literalWords
  | selectionSet s => s.selections ≠ []
  | fragment d => d.name.value ≠ "on"
  | spread s => s.name.value ≠ "on"
  | variableDefinition d => (∀ v ∈ d.default, v.tree.IsConst) ∧ AllConst d.directives
  | schema d => AllConst d.directives ∧ d.rootTypes ≠ []
  | schemaExtension d => AllConst d.directives ∧ (d.directives ≠ [] ∨ d.rootTypes ≠ [])
  | typeDefinition d => AllConst d.directives
  | typeExtension d =>
    AllConst d.directives ∧
      (d.directives ≠ [] ∨ d.body.leadingTrees ≠ [] ∨ d.body.trailingTrees ≠ [])
  | fieldDefinition d => AllConst d.directives
  | inputDefinition d => (∀ v ∈ d.default, v.tree.IsConst) ∧ AllConst d.directives
  | enumValueDefinition d => d.name.value ∉ literalWords ∧ AllConst d.directives
  | directiveDefinition d =>
    d.locations ≠ [] ∧ ∀ n ∈ d.locations, ∃ l : DirectiveLocation, n.value = l.name
  | _ => True

end Node

/-- A document that keeps all rules, with at most `limit` levels of nesting. -/
structure Document.WellFormed (limit : Nat) (d : Document) : Prop where
  lawful : ∀ n ∈ d.tree.preorder, n.IsLawful
  nesting : ∀ way ∈ d.tree.branches, way.countP (·.nests) ≤ limit

namespace Tree

mutual

/-- All nodes of a tree are lawful, none is a variable if it has to be constant, and no way down has
more than so many levels. -/
def Legal (const : Bool) (levels : Nat) : Tree Node → Prop
  | node n ts =>
    n.IsLawful ∧ (const = true → n.kind ≠ .value .variable) ∧
      ∃ below, levels = below + n.nests.toNat ∧ LegalRow const below ts

/-- The same of all trees of a row. -/
def LegalRow (const : Bool) (levels : Nat) : List (Tree Node) → Prop
  | [] => True
  | t :: ts => t.Legal const levels ∧ LegalRow const levels ts

end

@[simp] theorem legalRow_iff {const : Bool} {levels : Nat} {ts : List (Tree Node)} :
    LegalRow const levels ts ↔ ∀ t ∈ ts, t.Legal const levels := by
  induction ts with
  | nil => simp [LegalRow]
  | cons t ts ih => simp [LegalRow, ih]

theorem branchesOf_eq_flatMap {α : Type} (ts : List (Tree α)) :
    branchesOf ts = ts.flatMap branches := by
  induction ts with
  | nil => rfl
  | cons t ts ih => simp [branchesOf, ih]

theorem preorderOf_eq_flatMap {α : Type} (ts : List (Tree α)) :
    preorderOf ts = ts.flatMap preorder := by
  induction ts with
  | nil => rfl
  | cons t ts ih => simp [preorderOf, ih]

theorem postorderOf_eq_flatMap {α : Type} (ts : List (Tree α)) :
    postorderOf ts = ts.flatMap postorder := by
  induction ts with
  | nil => rfl
  | cons t ts ih => simp [postorderOf, ih]

/-- What holds of a tree if it holds of the trees below holds of all trees. -/
@[elab_as_elim]
theorem below_induction {α : Type} {motive : Tree α → Prop}
    (node : ∀ a ts, (∀ t ∈ ts, motive t) → motive (.node a ts)) (t : Tree α) : motive t := by
  cases t with
  | node a ts => exact node a ts fun t _ => below_induction node t

theorem branches_ne_nil {α : Type} (t : Tree α) : t.branches ≠ [] := by
  match t with
  | node a [] => simp [branches]
  | node a (t :: ts) => simp [branches, branches_ne_nil t]

/-- The ways down a tree are the ways down the trees below, with the root in front. -/
theorem forall_branches_node {p : List Node → Prop} {n : Node} {ts : List (Tree Node)} :
    (∀ way ∈ (node n ts).branches, p way) ↔
      (ts = [] → p [n]) ∧ ∀ t ∈ ts, ∀ way ∈ t.branches, p (n :: way) := by
  cases ts with
  | nil => simp [branches]
  | cons t ts => simp [branches, branchesOf_eq_flatMap, or_imp, forall_and]; grind

/-- A root takes up its own level, the ways down below it share what is left. -/
theorem nesting_node {n : Node} {ts : List (Tree Node)} {levels : Nat} :
    (∀ way ∈ (node n ts).branches, way.countP (·.nests) ≤ levels) ↔
      ∃ below, levels = below + n.nests.toNat ∧
        ∀ t ∈ ts, ∀ way ∈ t.branches, way.countP (·.nests) ≤ below := by
  have count : ∀ way : List Node,
      (n :: way).countP (·.nests) = way.countP (·.nests) + n.nests.toNat := by
    intro way; cases h : n.nests <;> simp [h]
  rw [forall_branches_node]
  simp only [count]
  constructor
  · rintro ⟨alone, below⟩
    have fits : n.nests.toNat ≤ levels := by
      cases ts with
      | nil => simpa [count] using alone rfl
      | cons t ts =>
        obtain ⟨way, hway⟩ := List.exists_mem_of_ne_nil _ t.branches_ne_nil
        have := below t (by simp) way hway
        omega
    refine ⟨levels - n.nests.toNat, by omega, ?_⟩
    intro t ht way hway
    have := below t ht way hway
    omega
  · rintro ⟨b, rfl, below⟩
    refine ⟨fun _ => by simp, ?_⟩
    intro t ht way hway
    have := below t ht way hway
    omega

theorem isConst_node {n : Node} {ts : List (Tree Node)} :
    (node n ts).IsConst ↔ n.kind ≠ .value .variable ∧ ∀ t ∈ ts, t.IsConst := by
  simp [IsConst, preorder, preorderOf_eq_flatMap]; grind

/-- What `Legal` says step by step, said of all nodes and all ways down at once. -/
theorem legal_iff {const : Bool} {levels : Nat} {t : Tree Node} :
    t.Legal const levels ↔
      (∀ n ∈ t.preorder, n.IsLawful) ∧ (const = true → t.IsConst) ∧
        ∀ way ∈ t.branches, way.countP (·.nests) ≤ levels := by
  induction t using below_induction generalizing levels with
  | node n ts ih =>
    have rows : ∀ below, LegalRow const below ts ↔
        (∀ t ∈ ts, ∀ m ∈ t.preorder, m.IsLawful) ∧ (const = true → ∀ t ∈ ts, t.IsConst) ∧
          ∀ t ∈ ts, ∀ way ∈ t.branches, way.countP (·.nests) ≤ below := by
      intro below
      rw [legalRow_iff]
      grind
    simp only [Legal, rows, nesting_node, isConst_node, preorder, preorderOf_eq_flatMap]
    grind

/-- What is legal about a node that does not nest. -/
theorem Legal.flat {const : Bool} {levels : Nat} {n : Node} {ts : List (Tree Node)}
    (h : (node n ts).Legal const levels) (flat : n.nests = false) :
    n.IsLawful ∧ ∀ t ∈ ts, t.Legal const levels := by
  obtain ⟨lawful, -, below, rfl, legal⟩ := h
  rw [flat]
  exact ⟨lawful, legalRow_iff.mp legal⟩

/-- What is legal about a node that counts as a level. -/
theorem Legal.nested {const : Bool} {levels : Nat} {n : Node} {ts : List (Tree Node)}
    (h : (node n ts).Legal const levels) (nested : n.nests = true) :
    n.IsLawful ∧ 0 < levels ∧ ∀ t ∈ ts, t.Legal const (levels - 1) := by
  obtain ⟨lawful, -, below, rfl, legal⟩ := h
  rw [nested]
  exact ⟨lawful, Nat.succ_pos below, legalRow_iff.mp legal⟩

theorem Legal.isConst {levels : Nat} {t : Tree Node} (h : t.Legal true levels) : t.IsConst :=
  (legal_iff.mp h).2.1 rfl

theorem Legal.ofConst {const : Bool} {levels : Nat} {t : Tree Node} (h : t.Legal const levels)
    (constant : t.IsConst) : t.Legal true levels := by
  rw [legal_iff] at h ⊢
  exact ⟨h.1, fun _ => constant, h.2.2⟩

theorem Legal.relax {const : Bool} {levels : Nat} {t : Tree Node} (h : t.Legal true levels) :
    t.Legal const levels := by
  rw [legal_iff] at h ⊢
  exact ⟨h.1, fun _ => h.2.1 rfl, h.2.2⟩

end Tree
end GraphQL
