/-! Labelled trees and the orders of their labels. -/
namespace GraphQL

/-- A tree with a label at every node. -/
inductive Tree (α : Type) where
  | node (label : α) (children : List (Tree α))

namespace Tree

variable {α β : Type}

/-- The label of the root. -/
def label : Tree α → α
  | node a _ => a

/-- The trees right below the root. -/
def children : Tree α → List (Tree α)
  | node _ ts => ts

/-- A tree of one node. -/
def leaf (a : α) : Tree α := node a []

mutual

/-- All subtrees, a tree before the trees below it. -/
def subtrees : Tree α → List (Tree α)
  | node a ts => node a ts :: subtreesOf ts

/-- All subtrees of a row of trees. -/
def subtreesOf : List (Tree α) → List (Tree α)
  | [] => []
  | t :: ts => t.subtrees ++ subtreesOf ts

end

mutual

/-- All labels, each before those below it. -/
def preorder : Tree α → List α
  | node a ts => a :: preorderOf ts

/-- All labels of a row of trees, each before those below it. -/
def preorderOf : List (Tree α) → List α
  | [] => []
  | t :: ts => t.preorder ++ preorderOf ts

end

mutual

/-- All labels, each after those below it. -/
def postorder : Tree α → List α
  | node a ts => postorderOf ts ++ [a]

/-- All labels of a row of trees, each after those below it. -/
def postorderOf : List (Tree α) → List α
  | [] => []
  | t :: ts => t.postorder ++ postorderOf ts

end

mutual

/-- All labels with their depths, each before those below it. -/
def preorderDepths (depth : Nat) : Tree α → List (Nat × α)
  | node a ts => (depth, a) :: preorderDepthsOf (depth + 1) ts

/-- All labels of a row of trees at some depth. -/
def preorderDepthsOf (depth : Nat) : List (Tree α) → List (Nat × α)
  | [] => []
  | t :: ts => t.preorderDepths depth ++ preorderDepthsOf depth ts

end

mutual

/-- The number of nodes. -/
def size : Tree α → Nat
  | node _ ts => 1 + rowSize ts

/-- The number of nodes in a row of trees. -/
def rowSize : List (Tree α) → Nat
  | [] => 0
  | t :: ts => t.size + rowSize ts

end

mutual

/-- Pairs every label with its place in the preorder, counted on from `n`. -/
def number (n : Nat) : Tree α → Tree (Nat × α)
  | node a ts => node (n, a) (numberOf (n + 1) ts)

/-- Pairs the labels of a row of trees with their places, counted on from `n`. -/
def numberOf (n : Nat) : List (Tree α) → List (Tree (Nat × α))
  | [] => []
  | t :: ts => t.number n :: numberOf (n + t.size) ts

end

/-- The subtree at a path, which names the children to go down to by their places. -/
def at? (t : Tree α) : List Nat → Option (Tree α)
  | [] => some t
  | i :: path => (t.children[i]?).bind (·.at? path)

@[simp] theorem at?_nil (t : Tree α) : t.at? [] = some t := by cases t; rfl

mutual

theorem map_label_subtrees (t : Tree α) : t.subtrees.map label = t.preorder := by
  match t with
  | node a ts => simp [subtrees, preorder, label, map_label_subtreesOf ts]

theorem map_label_subtreesOf (ts : List (Tree α)) :
    (subtreesOf ts).map label = preorderOf ts := by
  match ts with
  | [] => rfl
  | t :: ts => simp [subtreesOf, preorderOf, map_label_subtrees t, map_label_subtreesOf ts]

end

end Tree
end GraphQL
