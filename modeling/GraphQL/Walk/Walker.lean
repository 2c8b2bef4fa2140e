import GraphQL.Tree

/-! A walker: a cursor that goes over the children of one node at a time. -/
namespace GraphQL

/-- Where a walker stands among the children of a node. -/
structure Level (α : Type) where
  parent : Tree α
  /-- The place of the child reached last, or the number of children once all are passed. -/
  index : Option Nat
  child : Option (Tree α)

/-- A cursor in a tree, with the levels above it, the nearest first. -/
structure Walker (α : Type) where
  here : Level α
  above : List (Level α)

namespace Walker

variable {α : Type}

/-- What a walker refuses to do. -/
inductive Misuse (α : Type) where
  /-- Going down where no child is current. -/
  | noChild (parent : α)
  /-- Going up from the root. -/
  | atRoot

/-- The wording of a misuse, given the names of nodes. -/
def Misuse.message (name : α → String) : Misuse α → String
  | noChild parent =>
    "MisuseError: NodeWalker::descend() called without a current child (parent: " ++
      name parent ++ ")"
  | atRoot => "MisuseError: NodeWalker::ascend() called at the root"

/-- A level before its first child. -/
def enter (t : Tree α) : Level α := ⟨t, none, none⟩

/-- A walker before the first child of a root. -/
def start (root : Tree α) : Walker α := ⟨enter root, []⟩

/-- How many levels a walker has gone down. -/
def depth (w : Walker α) : Nat := w.above.length

/-- The node whose children are passed over. -/
def parent (w : Walker α) : Tree α := w.here.parent

/-- The child reached last. -/
def child (w : Walker α) : Option (Tree α) := w.here.child

/-- Moves to the next child. Past the last one there is none, however often it is tried. -/
def next (w : Walker α) : Walker α :=
  let children := w.here.parent.children
  let index := match w.here.index with
    | none => 0
    | some i => i + 1
  { w with here := ⟨w.here.parent, some (min index children.length), children[index]?⟩ }

/-- Goes down to the current child. -/
def descend (w : Walker α) : Except (Misuse α) (Walker α) :=
  match w.here.child with
  | none => .error (.noChild w.here.parent.label)
  | some t => .ok ⟨enter t, w.here :: w.above⟩

/-- Goes up to where the walker came down. -/
def ascend (w : Walker α) : Except (Misuse α) (Walker α) :=
  match w.above with
  | [] => .error .atRoot
  | l :: ls => .ok ⟨l, ls⟩

/-- Goes down wherever there is a child, and up again to a given depth: the nodes reached, with the
depths they were reached from, and the walker afterwards. The number bounds the steps. -/
def tourDown (bottom : Nat) : Nat → Walker α → List (Nat × α) × Walker α
  | 0, w => ([], w)
  | n + 1, w =>
    match w.next.here.child with
    | some t =>
      let (seen, last) := tourDown bottom n ⟨enter t, w.next.here :: w.above⟩
      ((w.depth, t.label) :: seen, last)
    | none =>
      if w.depth = bottom then ([], w.next)
      else
        match w.above with
        | [] => ([], w.next)
        | l :: ls => tourDown bottom n ⟨l, ls⟩

/-- Goes over all that is left below the current node. A node takes one step down and one up. -/
def tour (w : Walker α) : List (Nat × α) × Walker α := tourDown w.depth (2 * w.parent.size) w

end Walker
end GraphQL
