import GraphQL.Proofs.Walk.Stages
import GraphQL.Proofs.Walk.Tours

/-! Rounds: a shared walk that moves a walker from child to child does what the recursion over the tree
does, and ends within two rounds for each node. -/
namespace GraphQL.Stage

variable {α δ σ ε : Type} {name : α → String}

mutual

/-- The rounds from a child that comes next until the walker is past it. How many there are depends on
who listens, so what comes behind is given for any number that suffices for it. -/
theorem rounds_tree (t : Tree α) {w : Walker α} (comes : w.next.child = some t)
    {rest : StageM α δ σ ε (Option Outcome)} {k : Nat} (past : ∀ n, k ≤ n → rounds name n w.next = rest)
    {n : Nat} (enough : 2 * t.size + k ≤ n) :
    rounds name n w = (do
      if (← get).seats.any (·.isListening) then
        if ← walkTree (w.depth + 1) t then return some .aborted else rest
      else rest) := by
  match t with
  | .node a ts =>
    rw [Tree.size] at enough
    obtain ⟨m, rfl⟩ : ∃ m, n = m + 1 := ⟨n - 1, by omega⟩
    let below : Walker α := ⟨Walker.enter (.node a ts), w.next.here :: w.above⟩
    let last := Walker.next^[ts.length] below
    have descends : w.next.descend = .ok below := by
      simp only [Walker.child] at comes
      rw [Walker.descend, comes]
      rfl
    have passed : last.next = ⟨⟨.node a ts, some ts.length, none⟩, w.next.here :: w.above⟩ :=
      Walker.next_past (w := below) rfl
    have up : ∀ n, k + 1 ≤ n → rounds name n last = (do
        sweep (Seat.leave (.node a ts) (w.depth + 1))
        rest) := by
      intro n more
      obtain ⟨m, rfl⟩ : ∃ m, n = m + 1 := ⟨n - 1, by omega⟩
      rw [rounds, passed]
      exact bind_congr fun _ => past m (by omega)
    have row := rounds_row ts (w := below) rfl (k := k + 1) up (n := m) (by omega)
    rw [rounds]
    simp only [comes, descends]
    refine bind_congr fun st => ?_
    split
    · rw [walkTree]
      simp only [move, pure_bind, bind_assoc]
      refine bind_congr fun _ => bind_congr fun st => ?_
      split
      · rfl
      · rw [row]
        simp only [bind_assoc]
        refine bind_congr fun gone => ?_
        cases gone with
        | true => rfl
        | false => simp only [Bool.false_eq_true, if_false, bind_assoc, pure_bind]
    · exact past m (by omega)

theorem rounds_row (ts : List (Tree α)) {w : Walker α} (ahead : w.ahead = ts)
    {rest : StageM α δ σ ε (Option Outcome)} {k : Nat}
    (past : ∀ n, k ≤ n → rounds name n (Walker.next^[ts.length] w) = rest)
    {n : Nat} (enough : 2 * Tree.rowSize ts + k ≤ n) :
    rounds name n w = (do
      if ← walkRow (w.depth + 1) ts then return some .aborted else rest) := by
  match ts with
  | [] =>
    rw [walkRow, pure_bind]
    exact past n (by omega)
  | t :: ts =>
    obtain ⟨comes, ahead⟩ := Walker.next_of_ahead_cons ahead
    rw [Tree.rowSize] at enough
    have later n (more : 2 * Tree.rowSize ts + k ≤ n) := rounds_row ts (w := w.next) ahead past more
    rw [rounds_tree t comes (k := 2 * Tree.rowSize ts + k) later (by omega), walkRow]
    simp only [bind_assoc]
    refine bind_congr fun st => ?_
    split
    · simp only [bind_assoc]
      refine bind_congr fun gone => ?_
      cases gone <;> rfl
    · rfl

end

/-- A walk in rounds is the walk over the tree, and has an outcome within two rounds for each node. -/
theorem walkInRounds_eq (name : α → String) (t : Tree α) {n : Nat} (enough : 2 * t.size ≤ n) :
    walkInRounds name n t = (some <$> walkAttached t : StageM α δ σ ε (Option Outcome)) := by
  obtain ⟨a, ts⟩ := t
  rw [Tree.size] at enough
  let last : Walker α := Walker.next^[ts.length] (.start (.node a ts))
  have passed : last.next = ⟨⟨.node a ts, some ts.length, none⟩, []⟩ :=
    Walker.next_past (w := .start (.node a ts)) rfl
  have out : ∀ n, 1 ≤ n → (rounds name n last : StageM α δ σ ε (Option Outcome)) = (do
      sweep (Seat.leave (.node a ts) 0)
      return some .completed) := by
    intro n more
    obtain ⟨m, rfl⟩ : ∃ m, n = m + 1 := ⟨n - 1, by omega⟩
    rw [rounds, passed]
    rfl
  have row := rounds_row ts (w := .start (.node a ts)) rfl (k := 1) out (n := n) (by omega)
  rw [walkInRounds, walkAttached, walkTree]
  simp only [map_eq_pure_bind, bind_assoc]
  refine bind_congr fun st => ?_
  split
  · rfl
  · simp only [bind_assoc]
    refine bind_congr fun _ => bind_congr fun st => ?_
    split
    · rfl
    · rw [row]
      simp only [bind_assoc]
      refine bind_congr fun gone => ?_
      cases gone with
      | true => rfl
      | false => simp only [Bool.false_eq_true, if_false, bind_assoc, pure_bind]

end GraphQL.Stage
