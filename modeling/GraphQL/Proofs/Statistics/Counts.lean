import GraphQL.Command.Statistics
import GraphQL.Proofs.Lists

/-! What a census counts: each node under its sort, each definition in one group, and the sorts in the
order in which they were seen first. -/
namespace GraphQL

namespace Kind

/-- Sorts of operations and fragments. -/
def isExecutable (k : Kind) : Bool := k.categories.contains .executableDefinition

/-- Sorts of definitions and extensions in the type system. -/
def isTypeSystem (k : Kind) : Bool :=
  k.categories.contains .typeSystemDefinition || k.categories.contains .typeSystemExtension

/-- All sorts of nodes. -/
def all : List Kind :=
  [document, operation, fragment, variableDefinition, selectionSet, field, spread, inlineFragment,
    argument, directive, objectField, namedType, listType, nonNullType, schema, schemaExtension,
    rootType, enumValueDefinition, directiveDefinition, fieldDefinition, inputDefinition, name] ++
  [ValueKind.boolean, .enum, .float, .int, .list, .null, .object, .string, .variable].map value ++
  [TypeForm.scalar, .object, .interface, .union, .enum, .inputObject].flatMap fun form =>
    [typeDefinition form, typeExtension form]

theorem mem_all (k : Kind) : k ∈ all := by
  cases k
  case value kind => cases kind <;> decide
  case typeDefinition form | typeExtension form => cases form <;> decide
  all_goals decide

/-- Different sorts have different labels. -/
theorem label_injective : Function.Injective label := by
  have different : (all.map label).Nodup := by decide +kernel
  exact fun j k same => List.inj_on_of_nodup_map different (mem_all j) (mem_all k) same

end Kind

namespace Census

/-! ### One node -/

/-- A census with one more node. -/
def noted (c : Census) (n : Node) : Census :=
  ⟨increment n.kind c.counts, c.executable + n.kind.isExecutable.toNat,
    c.typeSystem + n.kind.isTypeSystem.toNat⟩

/-- A visit counts its node, once under its sort and once in its group if it is in one. -/
theorem run_visit (n : Node) (depth : Nat) (c : Census) :
    (visitor.visit n depth).run c = ((), c.noted n) := by
  have special : visitor.role? (.kind n.kind) = none := rfl
  rw [Visitor.visit, Kind.roles, List.findSome?_cons, special]
  simp only [noted, Kind.isExecutable, Kind.isTypeSystem, Kind.categories]
  cases n.kind.category? with
  | none => rfl
  | some group => cases group <;> rfl

/-! ### Many nodes -/

/-- The census of some nodes, in the order in which they are seen. -/
def ofNodes (nodes : List Node) : Census := nodes.foldl noted empty

theorem ofNodes_concat (nodes : List Node) (n : Node) :
    ofNodes (nodes ++ [n]) = (ofNodes nodes).noted n := by
  rw [ofNodes, List.foldl_append]
  rfl

/-- Sorts in the order in which they are met first, each with how often it is met. -/
def tally (ks : List Kind) : List (Kind × Nat) := ks.eraseDups.map fun k => (k, ks.count k)

/-- A sort that has been met has its number raised, in its place. -/
theorem increment_of_mem {k : Kind} {ks : List Kind} (met : k ∈ ks) (distinct : ks.Nodup)
    (f : Kind → Nat) :
    increment k (ks.map fun j => (j, f j)) =
      ks.map fun j => (j, f j + if k = j then 1 else 0) := by
  induction ks with
  | nil => cases met
  | cons j ks ih =>
    rw [List.nodup_cons] at distinct
    rw [List.map_cons, increment]
    by_cases same : j = k
    · subst same
      have later : ∀ i ∈ ks, (i, f i) = (i, f i + if j = i then 1 else 0) := by
        rintro i inside
        have other : j ≠ i := by
          rintro rfl
          exact distinct.1 inside
        simp [other]
      simp [List.map_congr_left later]
    · have met := (List.mem_cons.mp met).resolve_left (Ne.symm same)
      simp [same, Ne.symm same, ih met distinct.2]

/-- A sort that has not been met comes last. -/
theorem increment_of_notMem {k : Kind} {ks : List Kind} (unmet : k ∉ ks) (f : Kind → Nat) :
    increment k (ks.map fun j => (j, f j)) = ks.map (fun j => (j, f j)) ++ [(k, 1)] := by
  induction ks with
  | nil => rfl
  | cons j ks ih =>
    rw [List.mem_cons, not_or] at unmet
    rw [List.map_cons, increment, if_neg (Ne.symm unmet.1), ih unmet.2, List.cons_append]

theorem increment_tally (k : Kind) (ks : List Kind) :
    increment k (tally ks) = tally (ks ++ [k]) := by
  rw [tally, tally, eraseDups_concat]
  have raised : ∀ j, (ks ++ [k]).count j = ks.count j + if k = j then 1 else 0 := fun j => by
    simp [List.count_append, List.count_singleton]
  split
  · next met =>
    rw [increment_of_mem met (nodup_eraseDups ks)]
    simp only [raised]
  · next unmet =>
    have zero : ks.count k = 0 := List.count_eq_zero.mpr (List.mem_eraseDups.not.mp unmet)
    have others : ∀ j ∈ ks.eraseDups, (j, ks.count j) = (j, (ks ++ [k]).count j) := by
      intro j inside
      have other : k ≠ j := by
        rintro rfl
        exact unmet inside
      simp [raised, other]
    rw [increment_of_notMem unmet, List.map_append, List.map_congr_left others]
    simp [zero]

theorem counts_ofNodes (nodes : List Node) :
    (ofNodes nodes).counts = tally (nodes.map (·.kind)) := by
  induction nodes using List.reverseRecOn with
  | nil => rfl
  | append_singleton nodes n ih =>
    rw [ofNodes_concat, noted, ih, increment_tally, List.map_append]
    rfl

theorem executable_ofNodes (nodes : List Node) :
    (ofNodes nodes).executable = nodes.countP (·.kind.isExecutable) := by
  induction nodes using List.reverseRecOn with
  | nil => rfl
  | append_singleton nodes n ih =>
    rw [ofNodes_concat, noted, ih, countP_concat]

theorem typeSystem_ofNodes (nodes : List Node) :
    (ofNodes nodes).typeSystem = nodes.countP (·.kind.isTypeSystem) := by
  induction nodes using List.reverseRecOn with
  | nil => rfl
  | append_singleton nodes n ih =>
    rw [ofNodes_concat, noted, ih, countP_concat]

theorem sum_increment (k : Kind) (counts : List (Kind × Nat)) :
    (increment k counts).foldr (fun p n => p.2 + n) 0 = counts.foldr (fun p n => p.2 + n) 0 + 1 := by
  induction counts with
  | nil => rfl
  | cons p counts ih =>
    obtain ⟨j, n⟩ := p
    rw [increment]
    split
    · simp only [List.foldr_cons]
      omega
    · simp only [List.foldr_cons, ih]
      omega

theorem total_ofNodes (nodes : List Node) : (ofNodes nodes).total = nodes.length := by
  induction nodes using List.reverseRecOn with
  | nil => rfl
  | append_singleton nodes n ih =>
    rw [ofNodes_concat, total, noted, sum_increment, List.length_append, List.length_singleton,
      ← ih, total]

/-! ### Sorting -/

/-- Counts are sorted by their numbers, and where these are equal by what was met first. -/
theorem sortedCounts_pairwise {c : Census} {ks : List Kind} (counts : c.counts = tally ks) :
    c.sortedCounts.Pairwise fun p q =>
      q.2 < p.2 ∨ p.2 = q.2 ∧ ks.idxOf p.1 < ks.idxOf q.1 := by
  have ordered : c.counts.Pairwise fun p q => ks.idxOf p.1 < ks.idxOf q.1 := by
    rw [counts, tally, List.pairwise_map]
    exact pairwise_eraseDups ks
  have sorted := pairwise_mergeSort_stable (fun p q : Kind × Nat => decide (q.2 ≤ p.2))
    (fun p q r pq qr => by simp only [decide_eq_true_eq] at *; omega)
    (fun p q => by simp only [Bool.or_eq_true, decide_eq_true_eq]; omega) ordered
  refine sorted.imp fun {p q} ⟨le, first⟩ => ?_
  simp only [decide_eq_true_eq] at le first
  rcases Nat.lt_or_eq_of_le le with less | same
  · exact .inl less
  · exact .inr ⟨same.symm, first (Nat.le_of_eq same.symm)⟩

end Census
end GraphQL
