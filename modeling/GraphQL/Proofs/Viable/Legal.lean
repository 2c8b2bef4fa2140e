import GraphQL.Proofs.Extent
import GraphQL.Proofs.Viable.Lists

/-! Spellings of things that keep the rules. Each rule of the grammar makes a spelling of this sort
out of those of its parts. -/
namespace GraphQL

open Spelling Computability

variable {α β : Type} {const : Bool} {levels : Nat} {ks : List TokenKind}

/-- All trees of a row keep the rules. -/
abbrev AllLegal (const : Bool) (levels : Nat) (ts : List (Tree Node)) : Prop :=
  ∀ t ∈ ts, t.Legal const levels

theorem AllLegal.nil : AllLegal const levels [] := by simp [AllLegal]

theorem AllLegal.append {ts us : List (Tree Node)} (h : AllLegal const levels ts)
    (h' : AllLegal const levels us) : AllLegal const levels (ts ++ us) :=
  List.forall_mem_append.mpr ⟨h, h'⟩

/-- What is legal without variables is legal. -/
theorem AllLegal.relax {ts : List (Tree Node)} (h : AllLegal true levels ts) :
    AllLegal const levels ts := fun t ht => (h t ht).relax

theorem AllLegal.isConst {f : α → Tree Node} {as : List α} (h : AllLegal true levels (as.map f)) :
    ∀ a ∈ as, (f a).IsConst := fun a ha => (h (f a) (List.mem_map_of_mem ha)).isConst

/-- What spells something with legal trees. -/
def Legally (const : Bool) (levels : Nat) (spelling : α → Spelling)
    (trees : α → List (Tree Node)) : Spelling := fun ks =>
  ∃ a, ks ∈ spelling a ∧ AllLegal const levels (trees a)

namespace Node

variable {ts : List (Tree Node)}

theorem not_variable_of_flat {n : Node} (flat : n.nests = false) : n.kind ≠ .value .variable := by
  intro kind
  simp [nests, kind] at flat

/-- A lawful node that does not nest, over legal trees. -/
theorem legal_flat (n : Node) (tree : n.tree = .node n ts) (flat : n.nests = false)
    (lawful : n.IsLawful) (below : AllLegal const levels ts) : AllLegal const levels [n.tree] := by
  intro t ht
  rw [List.mem_singleton.mp ht, tree]
  exact ⟨lawful, fun _ => not_variable_of_flat flat, levels, by simp [flat],
    Tree.legalRow_iff.mpr below⟩

/-- A lawful node that counts for a level, over legal trees. -/
theorem legal_nested (n : Node) (tree : n.tree = .node n ts) (nests : n.nests = true)
    (lawful : n.IsLawful) (sort : const = true → n.kind ≠ .value .variable)
    (below : AllLegal const levels ts) : AllLegal const (levels + 1) [n.tree] := by
  intro t ht
  rw [List.mem_singleton.mp ht, tree]
  exact ⟨lawful, sort, levels, by simp [nests], Tree.legalRow_iff.mpr below⟩

end Node

/-- Nothing with a legal tree is spelled by no tokens. -/
theorem nil_notMem_legally {spelling : α → Spelling} {tree : α → Tree Node} (node : α → Node)
    (trees : ∀ a, (node a).tree = tree a) (spells : ∀ a, (node a).spelling = spelling a) :
    [] ∉ Legally const levels spelling fun a => [tree a] := by
  rintro ⟨a, spelled, legal⟩
  have root := legal (tree a) List.mem_cons_self
  rw [← trees, Tree.tree_eq_node] at root
  rw [← spells] at spelled
  exact root.1.nil_notMem_spelling spelled

section Lists

variable {spelling : α → Spelling} {tree : α → Tree Node}

/-- Something that may be missing. -/
theorem legally_maybe (h : ks ∈ (Legally const levels spelling fun a => [tree a]) + 1) :
    ks ∈ Legally const levels (maybe spelling) (·.toList.map tree) := by
  rcases h with ⟨a, spelled, legal⟩ | nothing
  · exact ⟨some a, spelled, legal⟩
  · exact ⟨none, nothing, .nil⟩

theorem legally_row (h : ks ∈ (Legally const levels spelling fun a => [tree a])∗) :
    ks ∈ Legally const levels (row spelling) (·.map tree) := by
  obtain ⟨parts, rfl, each⟩ := Language.mem_kstar.mp h
  clear h
  induction parts with
  | nil => exact ⟨[], rfl, .nil⟩
  | cons part parts ih =>
    rw [List.forall_mem_cons] at each
    obtain ⟨a, spelled, legal⟩ := each.1
    obtain ⟨as, spelled', legal'⟩ := ih each.2
    refine ⟨a :: as, ?_, legal.append legal'⟩
    rw [List.flatten_cons, row_cons]
    exact Language.append_mem_mul spelled spelled'

/-- A first thing and others after it. -/
theorem legally_row_cons (h : ks ∈ (Legally const levels spelling fun a => [tree a]) *
      (Legally const levels spelling fun a => [tree a])∗) :
    ∃ a as, ks ∈ row spelling (a :: as) ∧ AllLegal const levels ((a :: as).map tree) := by
  obtain ⟨first, ⟨a, spelled, legal⟩, later, others, rfl⟩ := Language.mem_mul.mp h
  obtain ⟨as, spelled', legal'⟩ := legally_row others
  refine ⟨a, as, ?_, legal.append legal'⟩
  rw [row_cons]
  exact Language.append_mem_mul spelled spelled'

theorem legally_block {opening closing : Punctuator}
    (h : ks ∈ mark opening * ((Legally const levels spelling fun a => [tree a]) *
      (Legally const levels spelling fun a => [tree a])∗) * mark closing + 1) :
    ks ∈ Legally const levels (block opening closing spelling) (·.map tree) := by
  rcases h with h | h
  · obtain ⟨_, ⟨first, opened, items, h, rfl⟩, last, closed, rfl⟩ := h
    obtain ⟨a, as, spelled, legal⟩ := legally_row_cons h
    refine ⟨a :: as, ?_, legal⟩
    rw [block_cons]
    exact Language.append_mem_mul (Language.append_mem_mul opened spelled) closed
  · exact ⟨[], h, .nil⟩

theorem legally_marked {m : Punctuator}
    (h : ks ∈ (mark m * Legally const levels spelling fun a => [tree a])∗) :
    ks ∈ Legally const levels (row fun a => mark m * spelling a) (·.map tree) := by
  have same : (mark m * Legally const levels spelling fun a => [tree a]) =
      Legally const levels (fun a => mark m * spelling a) fun a => [tree a] := by
    ext ls
    constructor
    · rintro ⟨first, marked, later, ⟨a, spelled, legal⟩, rfl⟩
      exact ⟨a, Language.append_mem_mul marked spelled, legal⟩
    · rintro ⟨a, ⟨first, marked, later, spelled, rfl⟩, legal⟩
      exact ⟨first, marked, later, ⟨a, spelled, legal⟩, rfl⟩
  rw [same] at h
  exact legally_row h

/-- Things with a mark between them, of which there is at least one. -/
theorem legally_separated {m : Punctuator}
    (h : ks ∈ (mark m + 1) * ((Legally const levels spelling fun a => [tree a]) *
      (mark m * Legally const levels spelling fun a => [tree a])∗)) :
    ∃ a as, ks ∈ Spelling.separated .free m spelling (a :: as) ∧
      AllLegal const levels ((a :: as).map tree) := by
  obtain ⟨front, led, _, ⟨first, ⟨a, spelled, legal⟩, later, others, rfl⟩, rfl⟩ := h
  obtain ⟨as, spelled', legal'⟩ := legally_marked others
  refine ⟨a, as, ?_, legal.append legal'⟩
  rw [Spelling.separated, mul_assoc]
  exact Language.append_mem_mul led.symm (Language.append_mem_mul spelled spelled')

end Lists
end GraphQL
