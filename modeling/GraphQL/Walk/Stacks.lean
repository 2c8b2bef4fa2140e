import GraphQL.Walk.Walker

/-! A walker as four stacks, one for each thing that is known of a level. They are pushed and popped
side by side. -/
namespace GraphQL

/-- A walker that keeps the levels above apart by what is known of them. The nearest level is on top
of each stack. -/
structure Stacks (α : Type) where
  parent : Tree α
  children : List (Tree α)
  index : Option Nat
  child : Option (Tree α)
  savedParents : List (Tree α)
  savedChildren : List (List (Tree α))
  savedIndices : List (Option Nat)
  savedChild : List (Option (Tree α))

namespace Stacks

variable {α : Type}

/-- What is done with the stacks. A misuse keeps the state reached. -/
abbrev Step (α β : Type) := EStateM (Walker.Misuse α) (Stacks α) β

/-- Before the first child of a root. -/
def start (root : Tree α) : Stacks α := ⟨root, root.children, none, none, [], [], [], []⟩

/-- How many levels are saved. -/
def depth (s : Stacks α) : Nat := s.savedParents.length

/-- Moves to the next child and returns it. -/
def next : Step α (Option (Tree α)) :=
  modifyGet fun s =>
    let index := match s.index with
      | none => 0
      | some i => i + 1
    let child := s.children[index]?
    (child, { s with index := some (min index s.children.length), child })

/-- Goes down to the current child. What was current is pushed. -/
def descend : Step α Unit := do
  let s ← get
  match s.child with
  | none => throw (.noChild s.parent.label)
  | some t =>
    set { s with
      parent := t
      children := t.children
      index := none
      child := none
      savedParents := s.parent :: s.savedParents
      savedChildren := s.children :: s.savedChildren
      savedIndices := s.index :: s.savedIndices
      savedChild := s.child :: s.savedChild }

/-- Goes up. What is popped becomes current, and an empty stack stands for nothing. -/
def ascend : Step α Unit := do
  let s ← get
  match s.savedParents with
  | [] => throw .atRoot
  | p :: ps =>
    set { s with
      parent := p
      children := s.savedChildren.head?.getD []
      index := s.savedIndices.head?.join
      child := s.savedChild.head?.join
      savedParents := ps
      savedChildren := s.savedChildren.tail
      savedIndices := s.savedIndices.tail
      savedChild := s.savedChild.tail }

end Stacks
end GraphQL
