import GraphQL.Proofs.Walk.Alone

/-! Moves: a walk alone, cut into the steps that a shared walk takes. A participant is moved on at
every node, before the children and after them; whoever does not listen stays as it is. -/
namespace GraphQL

variable {α δ σ : Type}

/-- Where a participant stands in a walk. Whoever has given up keeps its own state only. -/
inductive Standing (δ σ : Type) where
  | present (own : σ) (data : δ) (above : List δ) (skippingBelow : Option Nat)
  | gone (own : σ)

namespace Standing

/-- The own state of a participant. -/
def own : Standing δ σ → σ
  | present own .. => own
  | gone own => own

/-- Whether a participant has given up. -/
def isGone : Standing δ σ → Bool
  | present .. => false
  | gone _ => true

/-- The data that a participant visits the next node with, if it listens. -/
def visiting? : Standing δ σ → Option δ
  | present _ data _ none => some data
  | _ => none

/-- The data that a participant leaves the current node with, if it does. -/
def leaving? : Standing δ σ → Option δ
  | present _ _ (data :: _) none => some data
  | _ => none

theorem visiting?_of_isGone {x : Standing δ σ} (h : x.isGone) : x.visiting? = none := by
  cases x with
  | present => simp [isGone] at h
  | gone own => rfl

/-- A participant that skips does so below a node that is less deep. -/
def Above (depth : Nat) : Standing δ σ → Prop
  | present _ _ _ (some d) => d < depth
  | _ => True

/-- A participant that listens has come down from some node. -/
def Below : Standing δ σ → Prop
  | present _ _ above none => above ≠ []
  | _ => True

end Standing

/-- Moves of a participant, with what it sees meanwhile. -/
abbrev Move (α δ σ : Type) := Standing δ σ → Standing δ σ × List (Event α δ)

/-- One move after another. -/
def Move.andThen (f g : Move α δ σ) : Move α δ σ := fun x =>
  ((g (f x).1).1, (f x).2 ++ (g (f x).1).2)

namespace Plan

variable (plan : Plan α δ σ)

/-- The move at a node, before its children. -/
def enter (t : Tree α) (depth : Nat) : Move α δ σ
  | .present own data above none =>
    match plan.visit t data own with
    | (.abort, own) => (.gone own, [.visit t data])
    | (.skip, own) => (.present own data above (some depth), [.visit t data])
    | (choice, own) => (.present own (choice.below data) (data :: above) none, [.visit t data])
  | x => (x, [])

/-- The move at a node, after its children. -/
def comeBack (t : Tree α) (depth : Nat) : Move α δ σ
  | .present own _ (data :: above) none =>
    (.present (plan.leave t data own) data above none, [.leave t data])
  | .present own data above (some d) =>
    (.present own data above (if d = depth then none else some d), [])
  | x => (x, [])

/-- The move over all that a walk alone sees. -/
def across (work : δ → σ → Solo α δ σ) : Move α δ σ
  | .present own data above none =>
    let solo := work data own
    (if solo.aborted then .gone solo.own else .present solo.own data above none, solo.log)
  | x => (x, [])

variable {plan} {x : Standing δ σ} {t : Tree α} {depth : Nat} {work : δ → σ → Solo α δ σ}

/-! Whoever does not listen stays, and so does whoever has given up. -/

theorem across_of_not_visiting (h : x.visiting? = none) : across work x = (x, []) := by
  rcases x with ⟨own, data, above, _ | d⟩ | own
  · simp [Standing.visiting?] at h
  all_goals rfl

theorem comeBack_of_isGone (h : x.isGone) : plan.comeBack t depth x = (x, []) := by
  cases x with
  | present => simp [Standing.isGone] at h
  | gone own => rfl

theorem after_of_isGone (h : x.isGone) :
    (across work).andThen (plan.comeBack t depth) x = (x, []) := by
  cases x with
  | present => simp [Standing.isGone] at h
  | gone own => rfl

/-! What is seen by one move at a node. -/

theorem enter_log : (plan.enter t depth x).2 = x.visiting?.toList.map (.visit t) := by
  rcases x with ⟨own, data, above, _ | d⟩ | own
  · rcases hv : plan.visit t data own with ⟨choice, own'⟩
    cases choice <;> simp [enter, hv, Standing.visiting?]
  all_goals rfl

theorem comeBack_log : (plan.comeBack t depth x).2 = x.leaving?.toList.map (.leave t) := by
  rcases x with ⟨own, data, _ | ⟨data', above⟩, _ | d⟩ | own <;> rfl

/-! What a move keeps. -/

theorem comeBack_isGone : (plan.comeBack t depth x).1.isGone = x.isGone := by
  rcases x with ⟨own, data, _ | ⟨data', above⟩, _ | d⟩ | own <;> rfl

theorem enter_above (h : x.Above depth) : (plan.enter t depth x).1.Above (depth + 1) := by
  rcases x with ⟨own, data, above, _ | d⟩ | own
  · rcases hv : plan.visit t data own with ⟨choice, own'⟩
    cases choice <;> simp [enter, hv, Standing.Above]
  · exact Nat.lt_succ_of_lt h
  · trivial

theorem across_above (h : x.Above depth) : (across work x).1.Above depth := by
  rcases x with ⟨own, data, above, _ | d⟩ | own
  · simp only [across]
    split <;> trivial
  all_goals exact h

theorem enter_below : (plan.enter t depth x).1.Below := by
  rcases x with ⟨own, data, above, _ | d⟩ | own
  · rcases hv : plan.visit t data own with ⟨choice, own'⟩
    cases choice <;> simp [enter, hv, Standing.Below]
  all_goals trivial

theorem across_below (h : x.Below) : (across work x).1.Below := by
  rcases x with ⟨own, data, above, _ | d⟩ | own
  · simp only [across]
    split
    · trivial
    · exact h
  all_goals exact h

/-! A walk alone, step by step. -/

/-- Over no tree at all nobody moves. -/
theorem across_row_nil : across (plan.walkRow []) x = (x, []) := by
  rcases x with ⟨own, data, above, _ | d⟩ | own <;> rfl

/-- The way over a row leads over its trees. -/
theorem across_row_cons (t : Tree α) (ts : List (Tree α)) :
    across (plan.walkRow (t :: ts)) x =
      (across (plan.walkTree t)).andThen (across (plan.walkRow ts)) x := by
  rcases x with ⟨own, data, above, _ | d⟩ | own
  · by_cases gone : (plan.walkTree t data own).aborted
    · simp [Move.andThen, across, walkRow, gone]
    · simp [Move.andThen, across, walkRow, gone]
  all_goals rfl

/-- The way over a tree leads into its root, over the row below, and back. -/
theorem across_tree (a : α) (ts : List (Tree α)) (h : x.Above depth) :
    across (plan.walkTree (.node a ts)) x =
      (plan.enter (.node a ts) depth).andThen
        ((across (plan.walkRow ts)).andThen (plan.comeBack (.node a ts) depth)) x := by
  rcases x with ⟨own, data, above, _ | d⟩ | own
  · rcases hv : plan.visit (.node a ts) data own with ⟨choice, own'⟩
    cases choice with
    | abort => simp [Move.andThen, across, walkTree, enter, comeBack, hv]
    | skip => simp [Move.andThen, across, walkTree, enter, comeBack, hv]
    | undecided | visit =>
      by_cases gone : (plan.walkRow ts data own').aborted <;>
        simp [Move.andThen, across, walkTree, enter, comeBack, hv, Choice.below, gone]
    | visitWith chosen =>
      by_cases gone : (plan.walkRow ts chosen own').aborted <;>
        simp [Move.andThen, across, walkTree, enter, comeBack, hv, Choice.below, gone]
  · -- The node above that is skipped below is not this one.
    have other : d ≠ depth := Nat.ne_of_lt h
    simp [Move.andThen, across, enter, comeBack, other]
  · rfl

end Plan
end GraphQL
