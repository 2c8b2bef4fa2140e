import GraphQL.Walk.Parallel

/-! Walks alone: what a visitor sees of a tree if nobody else is there. A visitor is taken as a plan,
which says what it decides and what becomes of its own state. -/
namespace GraphQL

/-- What a visitor sees of a walk. -/
inductive Event (α δ : Type) where
  | visit (tree : Tree α) (data : δ)
  | leave (tree : Tree α) (data : δ)

/-- What a visit decides about the children of its node, if anything. -/
inductive Choice (δ : Type) where
  | undecided
  | visit
  | visitWith (data : δ)
  | skip
  | abort

namespace Choice

variable {δ : Type}

/-- Tells a coordination what is decided. -/
def take : Choice δ → Coordination.Step δ Unit
  | undecided => pure ()
  | visit => Coordination.visitChildren
  | visitWith data => Coordination.visitChildrenWith data
  | skip => Coordination.skipChildren
  | abort => Coordination.abort

/-- The data for the children of a node that is visited with some data. -/
def below (data : δ) : Choice δ → δ
  | visitWith chosen => chosen
  | _ => data

end Choice

/-- What a visitor does at a node, as it depends on the node, the data and its own state. -/
structure Plan (α δ σ : Type) where
  visit : Tree α → δ → σ → Choice δ × σ
  leave : Tree α → δ → σ → σ

/-- A visitor follows a plan: it comes to the end of every visit, with the decision and the own state
of the plan, and of every return, with its coordination as it was. What it reports is free. -/
structure CoordinatedVisitor.Follows {α δ σ ε : Type} (v : CoordinatedVisitor α δ σ ε)
    (plan : Plan α δ σ) : Prop where
  visit : ∀ t data own c reports, c.state = .undecided → c.data ≠ [] →
    ∃ c' reports', (plan.visit t data own).1.take c = .ok () c' ∧
      v.visit t data ⟨⟨c, own⟩, reports⟩ = .ok () ⟨⟨c', (plan.visit t data own).2⟩, reports'⟩
  leave : ∀ t data own c reports, c.state = .initial →
    ∃ reports', v.leave t data ⟨⟨c, own⟩, reports⟩ =
      .ok () ⟨⟨c, plan.leave t data own⟩, reports'⟩

/-- What a walk alone comes to: what was seen, the own state afterwards, and whether the visitor has
given up. -/
structure Solo (α δ σ : Type) where
  log : List (Event α δ)
  own : σ
  aborted : Bool

namespace Plan

variable {α δ σ : Type}

mutual

/-- Walks over a tree alone. Nothing below a node that skips its children is seen, and that node is
not left; after giving up nothing is seen at all. Other nodes are left with the data they were
visited with. -/
def walkTree (plan : Plan α δ σ) : Tree α → δ → σ → Solo α δ σ
  | .node a ts, data, own =>
    match plan.visit (.node a ts) data own with
    | (.abort, own) => ⟨[.visit (.node a ts) data], own, true⟩
    | (.skip, own) => ⟨[.visit (.node a ts) data], own, false⟩
    | (choice, own) =>
      let row := plan.walkRow ts (choice.below data) own
      if row.aborted then ⟨.visit (.node a ts) data :: row.log, row.own, true⟩
      else
        ⟨.visit (.node a ts) data :: (row.log ++ [.leave (.node a ts) data]),
          plan.leave (.node a ts) data row.own, false⟩

/-- Walks over a row of trees alone. -/
def walkRow (plan : Plan α δ σ) : List (Tree α) → δ → σ → Solo α δ σ
  | [], _, own => ⟨[], own, false⟩
  | t :: ts, data, own =>
    let first := plan.walkTree t data own
    if first.aborted then first
    else
      let later := plan.walkRow ts data first.own
      ⟨first.log ++ later.log, later.own, later.aborted⟩

end

end Plan

section

variable {α δ σ ε β : Type}

/-- Lets a visitor act, and drops what it reports. -/
def VisitM.silently (act : VisitM δ σ ε β) {ε' : Type} : VisitM δ σ ε' β := fun p =>
  match act ⟨p.performer, []⟩ with
  | .ok b q => .ok b ⟨q.performer, p.reports⟩
  | .error e q => .error e ⟨q.performer, p.reports⟩

/-- A visitor under watch: what it sees is reported, together with its number. -/
def CoordinatedVisitor.watched (v : CoordinatedVisitor α δ σ ε) (number : Nat) :
    CoordinatedVisitor α δ σ (Nat × Event α δ) where
  visit t data := do
    VisitM.report (number, .visit t data)
    VisitM.silently (v.visit t data)
  leave t data := do
    VisitM.report (number, .leave t data)
    VisitM.silently (v.leave t data)

end

/-- A visitor that follows a plan, with its own state and the data for the root. Its coordination is
free, but it can have been in walks before, and whatever they left is forgotten. -/
structure Participant (α δ σ ε : Type) where
  visitor : CoordinatedVisitor α δ σ ε
  plan : Plan α δ σ
  follows : visitor.Follows plan
  own : σ
  data : δ
  coordination : Coordination δ
  aborted : Bool
  skippingBelow : Option Nat
  free : coordination.attached = false
  bottom : coordination.data.getLast? = some data

namespace Participant

variable {α δ σ ε : Type}

/-- The seat of a participant, which is watched under a number. -/
def seat (p : Participant α δ σ ε) (number : Nat) : Seat α δ σ (Nat × Event α δ) :=
  ⟨p.visitor.watched number, ⟨p.coordination, p.own⟩, p.aborted, p.skippingBelow⟩

/-- The walk of a participant alone. -/
def alone (p : Participant α δ σ ε) (t : Tree α) : Solo α δ σ := p.plan.walkTree t p.data p.own

end Participant
end GraphQL
