import GraphQL.Tree
import GraphQL.Walk.Coordination
import GraphQL.Walk.Walker

/-! Parallel walks: several visitors share one walk over a tree. Each sees the nodes it would see
alone: it can skip what is below a node, or give up, and the others go on. -/
namespace GraphQL

/-- A visitor's part in walks, and its own state. -/
structure Performer (δ σ : Type) where
  coordination : Coordination δ
  own : σ

/-- A performer at work, and what it has reported. -/
structure Performance (δ σ ε : Type) where
  performer : Performer δ σ
  reports : List ε

/-- What a visitor does at a node. An interruption keeps the state reached. -/
abbrev VisitM (δ σ ε : Type) := EStateM Interruption (Performance δ σ ε)

/-- A visitor that can share a walk. -/
structure CoordinatedVisitor (α δ σ ε : Type) where
  /-- What happens at a node, with the data decided above it. -/
  visit : Tree α → δ → VisitM δ σ ε Unit
  /-- What happens once the children of a node have been visited. -/
  leave : Tree α → δ → VisitM δ σ ε Unit

namespace VisitM

variable {δ σ ε β : Type}

/-- Reports something. -/
def report (e : ε) : VisitM δ σ ε Unit := modify fun p => { p with reports := p.reports ++ [e] }

/-- Does something to the visitor's own state. -/
def onOwn (act : StateM σ β) : VisitM δ σ ε β := fun p =>
  let (b, own) := act p.performer.own
  .ok b { p with performer := { p.performer with own } }

/-- Puts another coordination in the place of the present one. -/
def putCoordination (c : Coordination δ) : VisitM δ σ ε Unit :=
  modify fun p => { p with performer := { p.performer with coordination := c } }

/-- Does something to the coordination. -/
def coordinate (step : Coordination.Step δ β) : VisitM δ σ ε β := fun p =>
  match step p.performer.coordination with
  | .ok b c => .ok b { p with performer := { p.performer with coordination := c } }
  | .error m c =>
    .error (.misuse m) { p with performer := { p.performer with coordination := c } }

end VisitM

/-- A visitor in a walk: whether it has given up, and the depth below which it skips everything. -/
structure Seat (α δ σ ε : Type) where
  visitor : CoordinatedVisitor α δ σ ε
  performer : Performer δ σ
  aborted : Bool
  skippingBelow : Option Nat

namespace Seat

variable {α δ σ ε β : Type}

/-- A seat for a visitor that has not begun. -/
def new (visitor : CoordinatedVisitor α δ σ ε) (performer : Performer δ σ) : Seat α δ σ ε :=
  ⟨visitor, performer, false, none⟩

/-- Visitors that neither gave up nor skip the current node. -/
def isListening (s : Seat α δ σ ε) : Bool := !s.aborted && s.skippingBelow.isNone

/-- Lets a visitor act, and returns what it reports. -/
def perform (s : Seat α δ σ ε) (act : VisitM δ σ ε β) :
    Seat α δ σ ε × List ε × Except Interruption β :=
  match act ⟨s.performer, []⟩ with
  | .ok b p => ({ s with performer := p.performer }, p.reports, .ok b)
  | .error e p => ({ s with performer := p.performer }, p.reports, .error e)

/-- A visit of one node, from the data for it to the verdict on its children. -/
def dispatch (v : CoordinatedVisitor α δ σ ε) (t : Tree α) : VisitM δ σ ε Verdict := do
  let data ← VisitM.coordinate Coordination.beginDispatch
  v.visit t data
  VisitM.coordinate Coordination.finishDispatch

/-- The return from the children of a node. -/
def comeBack (v : CoordinatedVisitor α δ σ ε) (t : Tree α) : VisitM δ σ ε Unit := do
  let data ← VisitM.coordinate Coordination.finishChildren
  v.leave t data

/-- Lets a visitor visit a node, if it listens. -/
def enter (t : Tree α) (depth : Nat) (s : Seat α δ σ ε) :
    Seat α δ σ ε × List ε × Except Interruption Unit :=
  if s.isListening then
    match s.perform (dispatch s.visitor t) with
    | (s, reports, .ok .visit) => (s, reports, .ok ())
    | (s, reports, .ok .skip) => ({ s with skippingBelow := some depth }, reports, .ok ())
    | (s, reports, .ok .abort) => ({ s with aborted := true }, reports, .ok ())
    | (s, reports, .error e) => (s, reports, .error e)
  else (s, [], .ok ())

/-- Lets a visitor leave a node, unless it skipped the children of that node or of one above. -/
def leave (t : Tree α) (depth : Nat) (s : Seat α δ σ ε) :
    Seat α δ σ ε × List ε × Except Interruption Unit :=
  if s.aborted then (s, [], .ok ())
  else
    match s.skippingBelow with
    | none => s.perform (comeBack s.visitor t)
    | some d => (if d = depth then { s with skippingBelow := none } else s, [], .ok ())

/-- Lets a visitor join a walk. -/
def attach (s : Seat α δ σ ε) : Except Misuse (Seat α δ σ ε) :=
  match Coordination.attach s.performer.coordination with
  | .ok _ c => .ok ⟨s.visitor, { s.performer with coordination := c }, false, none⟩
  | .error m _ => .error m

/-- Lets a visitor leave a walk. -/
def detach (s : Seat α δ σ ε) : Seat α δ σ ε :=
  { s with performer := { s.performer with coordination := s.performer.coordination.detach } }

/-- Lets all visitors join a walk. If one cannot, those before it leave again. -/
def attachAll : List (Seat α δ σ ε) → List (Seat α δ σ ε) × Except Misuse Unit
  | [] => ([], .ok ())
  | s :: ss =>
    match s.attach with
    | .error m => (s :: ss, .error m)
    | .ok s' =>
      match attachAll ss with
      | (ss', .error m) => (s'.detach :: ss', .error m)
      | (ss', .ok _) => (s' :: ss', .ok ())

/-- Lets all visitors take a step, in order, up to one that is interrupted. -/
def sweep (step : Seat α δ σ ε → Seat α δ σ ε × List ε × Except Interruption Unit) :
    List (Seat α δ σ ε) → List (Seat α δ σ ε) × List ε × Except Interruption Unit
  | [] => ([], [], .ok ())
  | s :: ss =>
    match step s with
    | (s', reports, .error e) => (s' :: ss, reports, .error e)
    | (s', reports, .ok _) =>
      let (ss', reports', result) := sweep step ss
      (s' :: ss', reports ++ reports', result)

end Seat

/-- How a walk ends. -/
inductive Outcome where
  | completed
  | aborted
  deriving DecidableEq

/-- The visitors of a walk, and all they have reported. -/
structure Stage (α δ σ ε : Type) where
  seats : List (Seat α δ σ ε)
  reports : List ε

/-- What happens on a stage. An interruption keeps the state reached. -/
abbrev StageM (α δ σ ε : Type) := EStateM Interruption (Stage α δ σ ε)

namespace Stage

variable {α δ σ ε : Type}

/-- Lets all visitors take a step. -/
def sweep (step : Seat α δ σ ε → Seat α δ σ ε × List ε × Except Interruption Unit) :
    StageM α δ σ ε Unit := fun st =>
  let (seats, reports, result) := Seat.sweep step st.seats
  let st := ⟨seats, st.reports ++ reports⟩
  match result with
  | .ok _ => .ok () st
  | .error e => .error e st

mutual

/-- Walks over a tree. The result tells whether every visitor has given up. -/
def walkTree (depth : Nat) : Tree α → StageM α δ σ ε Bool
  | .node a ts => do
    sweep (Seat.enter (.node a ts) depth)
    if (← get).seats.all (·.aborted) then return true
    else if ← walkRow (depth + 1) ts then return true
    else
      sweep (Seat.leave (.node a ts) depth)
      return false

/-- Walks over a row of trees. A tree that no visitor listens to is passed by. -/
def walkRow (depth : Nat) : List (Tree α) → StageM α δ σ ε Bool
  | [] => return false
  | t :: ts => do
    if (← get).seats.any (·.isListening) then
      if ← walkTree depth t then return true else walkRow depth ts
    else walkRow depth ts

end

/-- Walks over a tree with visitors that have joined. -/
def walkAttached (t : Tree α) : StageM α δ σ ε Outcome := do
  if (← get).seats.isEmpty then return .completed
  else if ← walkTree 0 t then return .aborted
  else return .completed

/-- What a walker comes to when it is moved. A misuse breaks the walk off. -/
def move (name : α → String) : Except (Walker.Misuse α) (Walker α) → StageM α δ σ ε (Walker α)
  | .ok w => return w
  | .error m => throw (.failure (m.message name))

/-- The same walk without recursion over the tree: a walker goes down into each child that somebody
listens to, and up again where all children are passed. The number bounds its rounds, and there is no
outcome if they do not suffice. -/
def rounds (name : α → String) : Nat → Walker α → StageM α δ σ ε (Option Outcome)
  | 0, _ => return none
  | n + 1, w => do
    let w := w.next
    match w.child with
    | some t =>
      if (← get).seats.any (·.isListening) then
        let w ← move name w.descend
        sweep (Seat.enter t w.depth)
        if (← get).seats.all (·.aborted) then return some .aborted
        else rounds name n w
      else rounds name n w
    | none =>
      sweep (Seat.leave w.parent w.depth)
      if w.depth = 0 then return some .completed
      else rounds name n (← move name w.ascend)

/-- Walks over a tree in rounds, with visitors that have joined. -/
def walkInRounds (name : α → String) (n : Nat) (t : Tree α) :
    StageM α δ σ ε (Option Outcome) := do
  if (← get).seats.isEmpty then return some .completed
  else
    sweep (Seat.enter t 0)
    if (← get).seats.all (·.aborted) then return some .aborted
    else rounds name n (.start t)

end Stage

/-- A walk over a tree with several visitors: the visitors afterwards, what they reported, and how
the walk ended. However it ends, all visitors leave it. -/
def walk {α δ σ ε : Type} (t : Tree α) (seats : List (Seat α δ σ ε)) :
    List (Seat α δ σ ε) × List ε × Except Interruption Outcome :=
  match Seat.attachAll seats with
  | (seats, .error m) => (seats, [], .error (.misuse m))
  | (seats, .ok _) =>
    match Stage.walkAttached t ⟨seats, []⟩ with
    | .ok outcome st => (st.seats.map (·.detach), st.reports, .ok outcome)
    | .error e st => (st.seats.map (·.detach), st.reports, .error e)

end GraphQL
