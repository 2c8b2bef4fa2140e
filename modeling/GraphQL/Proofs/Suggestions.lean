import Mathlib
import GraphQL.Ast.DirectiveLocation
import GraphQL.Proofs.Text.Edits

/-! Suggestions for misspelt words. The table of distances holds the Levenshtein distances of all
beginnings, and the first of the nearest words is suggested. -/
namespace GraphQL

open Std.Do

set_option mvcgen.warning false

namespace Text

variable {word done : List Char} {above : Array Nat} {a b : Char} {i : Nat}

/-- Where a list with numbered items is split, the item there has the length of what is in front of it as
its number. -/
theorem zipIdx_split {α : Type} {xs : List α} {before after : List (α × Nat)} {x : α}
    (h : xs.zipIdx = before ++ (x, i) :: after) : i = before.length ∧ xs[before.length]? = some x := by
  have item : xs.zipIdx[before.length]? = some (x, i) := by simp [h]
  rw [List.getElem?_zipIdx, Option.map_eq_some_iff] at item
  obtain ⟨y, found, same⟩ := item
  obtain ⟨rfl, number⟩ := Prod.mk.inj same
  exact ⟨by omega, found⟩

/-- A row of the table: how far the beginnings of a word are from what has been done of the other. -/
structure IsRow (word done : List Char) (row : Array Nat) : Prop where
  size : row.size = word.length + 1
  cell : ∀ j ≤ word.length, row[j]! = levenshtein done (word.take j)

theorem cell_set {row : Array Nat} {j k cell : Nat} (inside : j < row.size) :
    (row.set! j cell)[k]! = if j = k then cell else row[k]! := by
  grind

/-- A cell from the one to its left and those above. -/
theorem IsRow.next_cell {j left : Nat} (known : IsRow word done above) (here : word[j]? = some b)
    (a : Char) (beside : left = levenshtein (done ++ [a]) (word.take j)) :
    min (min (above[j + 1]! + 1) (left + 1)) (above[j]! + changeCost a b) =
      levenshtein (done ++ [a]) (word.take (j + 1)) := by
  obtain ⟨inside, rfl⟩ := List.getElem?_eq_some_iff.mp here
  rw [known.cell _ inside, known.cell _ inside.le, beside, List.take_succ_eq_append_getElem inside,
    levenshtein_concat]

/-- A new row, whatever stood in the cells that it is written over. -/
theorem distanceRow_isRow {old : Array Nat} (known : IsRow word done above)
    (size : old.size = word.length + 1) (a : Char) :
    IsRow word (done ++ [a]) (distanceRow word a done.length above old) := by
  generalize written : distanceRow word a done.length above old = row
  apply Id.of_wp_run_eq written
  mvcgen
  -- The cells are right up to the one for the characters passed so far.
  case inv1 =>
    exact ⇓⟨xs, row⟩ => ⌜row.size = word.length + 1 ∧
      ∀ j ≤ xs.pos, row[j]! = levenshtein (done ++ [a]) (word.take j)⌝
  case vc1.step before next after split row written =>
    obtain ⟨b, j⟩ := next
    obtain ⟨rowSize, cells⟩ := written
    obtain ⟨rfl, here⟩ := zipIdx_split split
    obtain ⟨inside, -⟩ := List.getElem?_eq_some_iff.mp here
    refine ⟨by simpa using rowSize, fun k hk => ?_⟩
    rw [cell_set (by dsimp only; omega)]
    rw [List.Cursor.pos_mk] at cells hk
    split
    · next last =>
      subst last
      exact known.next_cell here a (cells _ (Nat.le_refl _))
    · next other =>
      rw [List.length_append, List.length_singleton] at hk
      exact cells k (by omega)
  case vc2.pre =>
    refine ⟨by simpa using size, fun k hk => ?_⟩
    obtain rfl : k = 0 := Nat.le_zero.mp hk
    rw [cell_set (by omega)]
    simp
  case vc3.post.success row written =>
    obtain ⟨rowSize, cells⟩ := written
    exact ⟨rowSize, by simpa using cells⟩

theorem firstRow_isRow (word : List Char) : IsRow word [] (Array.range (word.length + 1)) where
  size := Array.size_range
  cell j hj := by
    rw [getElem!_pos _ j (by simpa using Nat.lt_succ_of_le hj)]
    simp [hj]

/-- The rows taken in turns hold the distances from all of the first word in the end. -/
theorem distance_eq (a b : List Char) : distance a b = levenshtein a b := by
  generalize computed : distance a b = result
  apply Id.of_wp_run_eq computed
  mvcgen
  case inv1 =>
    exact ⇓⟨xs, rows⟩ => ⌜IsRow b (a.take xs.pos) rows.1 ∧ rows.2.size = b.length + 1⌝
  case vc1.step before next after split rows above spare known =>
    obtain ⟨c, i⟩ := next
    obtain ⟨row, size⟩ := known
    obtain ⟨rfl, here⟩ := zipIdx_split split
    obtain ⟨inside, rfl⟩ := List.getElem?_eq_some_iff.mp here
    rw [List.Cursor.pos_mk] at row
    have next := distanceRow_isRow row size a[before.length]
    rw [List.length_take_of_le inside.le, ← List.take_succ_eq_append_getElem inside] at next
    refine ⟨?_, row.size⟩
    rw [List.Cursor.pos_mk, List.length_append]
    exact next
  case vc2.pre => exact ⟨firstRow_isRow b, by simp⟩
  case vc3.post.success rows known =>
    obtain ⟨row, size⟩ := known
    have last := row.cell b.length (Nat.le_refl _)
    simpa using last

/-- The first of the items that are least far away, if these are within a limit. -/
def FirstNearest {α : Type} (limit : Nat) (far : α → Nat) (items : List α) : Option α → Prop
  | none => ∀ x ∈ items, limit < far x
  | some x => far x ≤ limit ∧ ∃ before after, items = before ++ x :: after ∧
      (∀ y ∈ before, far x < far y) ∧ ∀ y ∈ after, far x ≤ far y

namespace FirstNearest

variable {α : Type} {limit : Nat} {far : α → Nat} {items : List α} {x y : α}

/-- After items that are all too far away comes another. -/
theorem concat_none (h : FirstNearest limit far items none) :
    FirstNearest limit far (items ++ [y]) (if far y ≤ limit then some y else none) := by
  split
  · next near =>
    refine ⟨near, items, [], rfl, fun x hx => ?_, by simp⟩
    exact Nat.lt_of_le_of_lt near (h x hx)
  · next away =>
    intro x hx
    rcases List.mem_append.mp hx with hx | hx
    · exact h x hx
    · rw [List.mem_singleton.mp hx]
      exact Nat.lt_of_not_le away

/-- Only what is nearer than the nearest so far takes its place. -/
theorem concat_some (h : FirstNearest limit far items (some x)) :
    FirstNearest limit far (items ++ [y]) (some (if far y < far x then y else x)) := by
  obtain ⟨near, before, after, rfl, earlier, later⟩ := h
  split
  · next nearer =>
    refine ⟨by omega, before ++ x :: after, [], rfl, fun z hz => ?_, by simp⟩
    rcases List.mem_append.mp hz with hz | hz
    · exact nearer.trans (earlier z hz)
    · rcases List.mem_cons.mp hz with rfl | hz
      · exact nearer
      · exact nearer.trans_le (later z hz)
  · next farther =>
    refine ⟨near, before, after ++ [y], by simp, earlier, fun z hz => ?_⟩
    rcases List.mem_append.mp hz with hz | hz
    · exact later z hz
    · rw [List.mem_singleton.mp hz]
      exact Nat.le_of_not_lt farther

end FirstNearest

/-- What is kept of the items passed so far is the first of the nearest, with its distance. -/
theorem foldl_closer {α : Type} (limit : Nat) (word : List Char) (name : α → String)
    (items : List α) : ∃ found,
      (items.map name).foldl (closer limit word) none =
        found.map (fun x => (name x, levenshtein word (name x).toList)) ∧
      FirstNearest limit (fun x => levenshtein word (name x).toList) items found := by
  induction items using List.reverseRecOn with
  | nil => exact ⟨none, rfl, by simp [FirstNearest]⟩
  | append_singleton items y ih =>
    obtain ⟨found, kept, nearest⟩ := ih
    rw [List.map_append, List.foldl_append, kept]
    cases found with
    | none =>
      refine ⟨_, ?_, nearest.concat_none⟩
      simp only [List.map_cons, List.map_nil, List.foldl_cons, List.foldl_nil, Option.map_none,
        closer, distance_eq]
      split <;> rfl
    | some x =>
      refine ⟨_, ?_, nearest.concat_some⟩
      simp only [List.map_cons, List.map_nil, List.foldl_cons, List.foldl_nil, Option.map_some,
        closer, distance_eq]
      split <;> rfl

end Text

/-- The distance of two words is their Levenshtein distance, which is a metric, and what is suggested
for a word is the first of the locations that are nearest to it in capitals, if these are at most three
edits away. -/
theorem suggestions_nearest :
    (∀ a b : String, Text.distance a.toList b.toList = Text.levenshtein a.toList b.toList) ∧
    (∀ a b : String, Text.distance a.toList b.toList = Text.distance b.toList a.toList) ∧
    (∀ a b : String, Text.distance a.toList b.toList = 0 ↔ a = b) ∧
    (∀ a b c : String, Text.distance a.toList c.toList ≤
      Text.distance a.toList b.toList + Text.distance b.toList c.toList) ∧
    ∀ word : String, ∃ found : Option DirectiveLocation,
      DirectiveLocation.suggestion? word = found.map DirectiveLocation.name ∧
      Text.FirstNearest 3 (fun l => Text.levenshtein word.toUpper.toList l.name.toList)
        DirectiveLocation.all found := by
  simp only [Text.distance_eq]
  refine ⟨fun _ _ => trivial, fun a b => Text.levenshtein_comm _ _, fun a b => ?_,
    fun a b c => Text.levenshtein_triangle _ _ _, fun word => ?_⟩
  · rw [Text.levenshtein_eq_zero_iff, String.toList_inj]
  · obtain ⟨found, kept, nearest⟩ :=
      Text.foldl_closer 3 word.toUpper.toList DirectiveLocation.name DirectiveLocation.all
    refine ⟨found, ?_, nearest⟩
    have capitals : word.toUpper.toList = word.toList.map Char.toUpper := String.toList_map
    rw [DirectiveLocation.suggestion?, ← capitals, Text.nearest?, kept, Option.map_map]
    rfl

end GraphQL
