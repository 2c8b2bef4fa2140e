import GraphQL.Walk.Walker
import Mathlib.Logic.Function.Iterate

/-! Tours: a walker that goes down wherever it can and up when all children are passed comes to all
nodes below the one where it started, each before those below it, and ends there. -/
namespace GraphQL

variable {α : Type}

namespace Tree

mutual

theorem map_snd_preorderDepths (depth : Nat) (t : Tree α) :
    (t.preorderDepths depth).map Prod.snd = t.preorder := by
  match t with
  | node a ts => simp [preorderDepths, preorder, map_snd_preorderDepthsOf (depth + 1) ts]

theorem map_snd_preorderDepthsOf (depth : Nat) (ts : List (Tree α)) :
    (preorderDepthsOf depth ts).map Prod.snd = preorderOf ts := by
  match ts with
  | [] => rfl
  | t :: ts =>
    simp [preorderDepthsOf, preorderOf, map_snd_preorderDepths depth t,
      map_snd_preorderDepthsOf depth ts]

end

end Tree

namespace Walker

/-- The children that a walker has not come to yet. -/
def ahead (w : Walker α) : List (Tree α) :=
  match w.here.index with
  | none => w.here.parent.children
  | some i => w.here.parent.children.drop (i + 1)

variable {w : Walker α} {t : Tree α} {ts : List (Tree α)}

theorem next_of_ahead_cons (h : w.ahead = t :: ts) :
    w.next.here.child = some t ∧ w.next.ahead = ts := by
  obtain ⟨⟨parent, index, child⟩, above⟩ := w
  cases index with
  | none =>
    simp only [ahead] at h
    simp [next, ahead, h]
  | some i =>
    simp only [ahead] at h
    have some : parent.children[i + 1]? = some t := by
      rw [← List.head?_drop, h]
      rfl
    have below : i + 1 < parent.children.length := (List.getElem?_eq_some_iff.1 some).1
    refine ⟨some, ?_⟩
    simp only [next, ahead, Nat.min_eq_left (Nat.le_of_lt below)]
    rw [← List.tail_drop, h]
    rfl

/-- Once all children are passed there is no next one. -/
theorem next_of_ahead_nil (h : w.ahead = []) :
    w.next = ⟨⟨w.here.parent, some w.here.parent.children.length, none⟩, w.above⟩ := by
  obtain ⟨⟨parent, index, child⟩, above⟩ := w
  cases index with
  | none =>
    simp only [ahead] at h
    simp [next, h]
  | some i =>
    simp only [ahead] at h
    have passed := List.drop_eq_nil_iff.1 h
    simp [next, passed]

theorem above_next_iterate (n : Nat) : (next^[n] w).above = w.above := by
  induction n generalizing w with
  | zero => rfl
  | succ n ih => rw [Function.iterate_succ_apply, ih]; rfl

theorem parent_next_iterate (n : Nat) : (next^[n] w).here.parent = w.here.parent := by
  induction n generalizing w with
  | zero => rfl
  | succ n ih => rw [Function.iterate_succ_apply, ih]; rfl

theorem ahead_next_iterate (h : w.ahead = ts) : (next^[ts.length] w).ahead = [] := by
  induction ts generalizing w with
  | nil => exact h
  | cons t ts ih => exact ih (next_of_ahead_cons h).2

/-- Past all that was ahead, a walker finds no child. -/
theorem next_past (h : w.ahead = ts) : (next^[ts.length] w).next =
    ⟨⟨w.here.parent, some w.here.parent.children.length, none⟩, w.above⟩ := by
  rw [next_of_ahead_nil (ahead_next_iterate h), parent_next_iterate, above_next_iterate]

mutual

/-- On its way below a child that comes next, a walker comes to all nodes there, and is back at that
child then. -/
theorem tourDown_tree (bottom : Nat) (t : Tree α) {w : Walker α}
    (comes : w.next.here.child = some t) (deep : bottom ≤ w.depth) (k : Nat) :
    tourDown bottom (2 * t.size + k) w =
      (t.preorderDepths w.depth ++ (tourDown bottom k w.next).1, (tourDown bottom k w.next).2) := by
  match t with
  | .node a ts =>
    have steps : 2 * (Tree.node a ts).size + k = 2 * Tree.rowSize ts + (k + 1) + 1 := by
      rw [Tree.size]
      omega
    let below : Walker α := ⟨enter (.node a ts), w.next.here :: w.above⟩
    let last := next^[ts.length] below
    have row := tourDown_row bottom ts (w := below) rfl (Nat.le_succ_of_le deep) (k + 1)
    have passed : last.next.here.child = none := by
      rw [show last.next = _ from next_past (w := below) rfl]
    have above : last.above = w.next.here :: w.above := above_next_iterate ts.length
    have up : tourDown bottom (k + 1) last = tourDown bottom k w.next := by
      have deeper : last.depth ≠ bottom := by
        rw [depth, above, List.length_cons]
        exact Nat.ne_of_gt (Nat.lt_succ_of_le deep)
      rw [tourDown]
      simp only [passed, deeper, if_false, above]
      rfl
    rw [up] at row
    rw [steps, tourDown]
    simp only [comes]
    rw [row]
    rfl

/-- So it does below all children that are ahead. -/
theorem tourDown_row (bottom : Nat) (ts : List (Tree α)) {w : Walker α} (ahead : w.ahead = ts)
    (deep : bottom ≤ w.depth) (k : Nat) :
    tourDown bottom (2 * Tree.rowSize ts + k) w =
      (Tree.preorderDepthsOf w.depth ts ++ (tourDown bottom k (next^[ts.length] w)).1,
        (tourDown bottom k (next^[ts.length] w)).2) := by
  match ts with
  | [] => simp [Tree.rowSize, Tree.preorderDepthsOf]
  | t :: ts =>
    obtain ⟨comes, ahead⟩ := next_of_ahead_cons ahead
    have first := tourDown_tree bottom t comes deep (2 * Tree.rowSize ts + k)
    have later := tourDown_row bottom ts ahead deep k
    have same : w.next.depth = w.depth := rfl
    rw [Tree.rowSize, Nat.mul_add, Nat.add_assoc, first, later, same]
    simp [Tree.preorderDepthsOf]

end

/-- A walker that goes on as long as it can comes to all that is ahead, and does not go up from
where it started. -/
theorem tourDown_ahead (w : Walker α) {n : Nat} (enough : 2 * Tree.rowSize w.ahead < n) :
    tourDown w.depth n w = (Tree.preorderDepthsOf w.depth w.ahead,
      ⟨⟨w.parent, some w.parent.children.length, none⟩, w.above⟩) := by
  obtain ⟨k, rfl⟩ := Nat.exists_eq_add_of_lt enough
  rw [Nat.add_assoc, tourDown_row w.depth w.ahead rfl (Nat.le_refl _) (k + 1)]
  have last := next_past (w := w) rfl
  have depth : (next^[w.ahead.length] w).depth = w.depth :=
    congrArg List.length (above_next_iterate w.ahead.length)
  rw [tourDown]
  simp only [last, depth, if_true]
  rw [List.append_nil]
  rfl

/-- A tour from the root comes to the whole tree, within two steps for each node. -/
theorem tourDown_start (t : Tree α) {n : Nat} (enough : 2 * t.size ≤ n) :
    tourDown 0 n (start t) = (Tree.preorderDepthsOf 0 t.children,
      ⟨⟨t, some t.children.length, none⟩, []⟩) := by
  refine tourDown_ahead (start t) (Nat.lt_of_lt_of_le ?_ enough)
  obtain ⟨a, ts⟩ := t
  rw [Tree.size]
  show 2 * Tree.rowSize ts < _
  omega

end Walker
end GraphQL
