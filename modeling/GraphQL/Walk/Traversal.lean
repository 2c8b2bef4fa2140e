import GraphQL.Misuse
import GraphQL.Tree

/-! Traversals: visits that go down to the children of the current node as they like. The nodes
being visited form a stack of frames, and every frame is left again, also by an interruption. -/
namespace GraphQL

/-- A node being visited, and the data it is visited with. -/
structure Frame (α δ : Type) where
  tree : Tree α
  data : δ

/-- The frames of a traversal, the newest first, and the visitor's own state. -/
structure Traversal (α δ σ : Type) where
  frames : List (Frame α δ)
  own : σ

/-- What happens during a traversal. An interruption keeps the state reached. -/
abbrev TraversalM (α δ σ : Type) := EStateM Interruption (Traversal α δ σ)

namespace Traversal

variable {α δ σ ω : Type}

/-- A traversal before its first frame. -/
def start (own : σ) : Traversal α δ σ := ⟨[], own⟩

/-- Adds a frame. -/
def push (t : Tree α) (data : δ) (s : Traversal α δ σ) : Traversal α δ σ :=
  { s with frames := ⟨t, data⟩ :: s.frames }

/-- Removes the newest frame. -/
def pop (s : Traversal α δ σ) : Traversal α δ σ := { s with frames := s.frames.tail }

/-- Runs an action in a frame of its own. -/
def within (t : Tree α) (data : δ) (act : TraversalM α δ σ ω) : TraversalM α δ σ ω := fun s =>
  match act (s.push t data) with
  | .ok w s' => .ok w s'.pop
  | .error e s' => .error e s'.pop

/-- A way to traverse a tree with some data. -/
abbrev Goer (α δ σ ω : Type) := Tree α → δ → TraversalM α δ σ ω

/-- Visits a tree in a frame of its own. The visit is given the way to traverse further trees; the
number bounds how many visits may be inside each other. -/
def traverse (visit : Goer α δ σ ω → Goer α δ σ ω) : Nat → Goer α δ σ ω
  | 0, _, _ => throw .exhausted
  | n + 1, t, data => within t data (visit (traverse visit n) t data)

/-- Traverses the children of the current node with the data of its frame. -/
def descend (go : Goer α δ σ ω) : TraversalM α δ σ (List ω) := do
  match (← get).frames with
  | [] => throw (.misuse .descendOutside)
  | f :: _ => f.tree.children.mapM (go · f.data)

/-- Traverses the children of the current node with other data. -/
def descendWith (go : Goer α δ σ ω) (data : δ) : TraversalM α δ σ (List ω) := do
  match (← get).frames with
  | [] => throw (.misuse .descendWithOutside)
  | f :: _ => f.tree.children.mapM (go · data)

/-- Runs an action on the visitor's own state. -/
def onOwn (act : EStateM Interruption σ ω) : TraversalM α δ σ ω := fun s =>
  match act s.own with
  | .ok w own => .ok w { s with own }
  | .error e own => .error e { s with own }

end Traversal
end GraphQL
