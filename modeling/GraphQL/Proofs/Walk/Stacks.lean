import GraphQL.Walk.Stacks

/-! Whatever is asked of a walker, its four stacks answer as its levels do. -/
namespace GraphQL

variable {α : Type}

/-- An answer, or what was misused, with what is left either way. -/
abbrev Answered (α ω : Type) := Except (Walker.Misuse α) (Option (Tree α)) × ω

/-- What can be asked of a walker. -/
inductive Walker.Call where
  | next
  | descend
  | ascend
  deriving DecidableEq

namespace Walker.Call

/-- A walker that refuses a call stays as it is. -/
def ask (w : Walker α) : Call → Answered α (Walker α)
  | next => (.ok w.next.child, w.next)
  | descend =>
    match w.descend with
    | .ok w' => (.ok none, w')
    | .error e => (.error e, w)
  | ascend =>
    match w.ascend with
    | .ok w' => (.ok none, w')
    | .error e => (.error e, w)

/-- A call that goes down or up answers with nothing. -/
def onStacks : Call → Stacks.Step α (Option (Tree α))
  | next => Stacks.next
  | descend => Stacks.descend *> pure none
  | ascend => Stacks.ascend *> pure none

/-- Stacks after a call. A misuse is caught, and what it has left behind is kept. -/
def askStacks (s : Stacks α) (call : Call) : Answered α (Stacks α) :=
  match call.onStacks s with
  | .ok t s' => (.ok t, s')
  | .error e s' => (.error e, s')

end Walker.Call

open Walker (Call)

namespace Walker

/-- A walker after some calls. -/
def after (w : Walker α) (calls : List Call) : Walker α :=
  calls.foldl (fun w call => (call.ask w).2) w

@[simp] theorem after_nil (w : Walker α) : w.after [] = w := rfl

@[simp] theorem after_cons (w : Walker α) (call : Call) (calls : List Call) :
    w.after (call :: calls) = (call.ask w).2.after calls := rfl

@[simp] theorem after_append (w : Walker α) (calls more : List Call) :
    w.after (calls ++ more) = (w.after calls).after more :=
  List.foldl_append ..

end Walker

namespace Stacks

/-- Stacks after some calls. -/
def after (s : Stacks α) (calls : List Call) : Stacks α :=
  calls.foldl (fun s call => (call.askStacks s).2) s

/-- The stacks of a walker. -/
def ofWalker (w : Walker α) : Stacks α where
  parent := w.parent
  children := w.parent.children
  index := w.here.index
  child := w.child
  savedParents := w.above.map (·.parent)
  savedChildren := w.above.map (·.parent.children)
  savedIndices := w.above.map (·.index)
  savedChild := w.above.map (·.child)

@[simp] theorem depth_ofWalker (w : Walker α) : (ofWalker w).depth = w.depth :=
  List.length_map ..

theorem ask_ofWalker (w : Walker α) (call : Call) :
    call.askStacks (ofWalker w) = ((call.ask w).1, ofWalker (call.ask w).2) := by
  obtain ⟨⟨parent, index, child⟩, above⟩ := w
  cases call with
  | next => rfl
  | descend => cases child <;> rfl
  | ascend => cases above <;> rfl

/-- The four stacks go along with the walker. -/
theorem after_ofWalker (w : Walker α) (calls : List Call) :
    (ofWalker w).after calls = ofWalker (w.after calls) := by
  induction calls generalizing w with
  | nil => rfl
  | cons call calls ih =>
    rw [after, List.foldl_cons, ask_ofWalker]
    exact ih (call.ask w).2

end Stacks
end GraphQL
