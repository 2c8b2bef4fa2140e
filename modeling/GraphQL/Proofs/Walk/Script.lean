import GraphQL.Walk.Parallel

/-! Scripts: all that visitors can do with their coordinations. A script asks for decisions as often
as it likes, in visits and in returns, and goes on or fails whatever the answers are. Everything is
recorded. -/
namespace GraphQL

variable {ι α δ σ β : Type}

namespace Coordination

/-- A coordination after a step, whether the step was refused or not. -/
def after (step : Step δ β) (c : Coordination δ) : Coordination δ :=
  match step c with
  | .ok _ c' => c'
  | .error _ c' => c'

/-- What a visitor can ask of its coordination. -/
inductive Request (δ : Type) where
  | abort
  | skip
  | visit
  | visitWith (data : δ)

namespace Request

def decision : Request δ → Decision
  | abort => .abort
  | skip => .skip
  | visit => .visit
  | visitWith _ => .visitWith

/-- The step that is asked for. -/
def make : Request δ → Step δ Unit
  | abort => Coordination.abort
  | skip => skipChildren
  | visit => visitChildren
  | visitWith data => visitChildrenWith data

/-- Whether the children are to be visited. -/
def visits : Request δ → Bool
  | visit | visitWith _ => true
  | abort | skip => false

/-- A coordination that has been granted a request. -/
def granted (c : Coordination δ) : Request δ → Coordination δ
  | abort => { c with state := .aborted }
  | skip => { c with state := .skipping }
  | visit => { c with state := .visiting, data := c.data.head?.toList ++ c.data }
  | visitWith data => { c with state := .visiting, data := data :: c.data }

variable {c : Coordination δ}

theorem make_undecided (r : Request δ) (undecided : c.state = .undecided) (data : c.data ≠ []) :
    r.make c = .ok () (r.granted c) := by
  obtain ⟨state, attached, _ | ⟨first, rest⟩⟩ := c
  · exact absurd rfl data
  · cases undecided
    cases r <;> rfl

/-- Outside a visit, and after a decision, every request is refused, and nothing happens. -/
theorem make_refused (r : Request δ) (decided : c.state ≠ .undecided) :
    r.make c = .error (.decision r.decision c.state) c := by
  obtain ⟨state, attached, data⟩ := c
  cases state with
  | undecided => exact absurd rfl decided
  | _ => cases r <;> rfl

end Request
end Coordination

open Coordination (Request)

/-- What a visitor does in a visit or in a return. A visitor that does not catch a refusal fails
with it. -/
inductive Script (δ σ : Type) where
  | done
  | fail (e : Interruption)
  /-- Changes the visitor's own state. -/
  | put (own : σ) (next : Script δ σ)
  /-- Looks at the coordination. -/
  | look (next : Coordination δ → Script δ σ)
  /-- Asks the coordination for a decision, and goes on with the answer. -/
  | ask (request : Request δ) (next : Except Misuse Unit → Script δ σ)

/-- What a visitor goes through in a walk. -/
inductive Moment (α δ : Type) where
  /-- A visit begins. -/
  | begun (tree : Tree α) (data : δ)
  /-- A visit has come to its end. -/
  | ended
  /-- The visitor is back from the children of a node. -/
  | back (tree : Tree α) (data : δ)
  | looked (coordination : Coordination δ)
  | asked (request : Request δ) (answer : Except Misuse Unit)
  | failed (e : Interruption)

namespace Moment

/-- The visitor hears from the walk. -/
def IsCall : Moment α δ → Prop
  | begun _ _ | back _ _ => True
  | _ => False

/-- The moments of a script. -/
def IsInner : Moment α δ → Prop
  | looked _ | asked _ _ | failed _ => True
  | _ => False

end Moment

/-- Tries a step of the coordination. -/
def VisitM.attempt {ε : Type} (step : Coordination.Step δ β) : VisitM δ σ ε (Except Misuse β) :=
  fun p =>
    match step p.performer.coordination with
    | .ok b c => .ok (.ok b) { p with performer := { p.performer with coordination := c } }
    | .error m c => .ok (.error m) { p with performer := { p.performer with coordination := c } }

namespace Script

/-- Acts as a script says, and records it under a tag. -/
def run (tag : ι) : Script δ σ → VisitM δ σ (ι × Moment α δ) Unit
  | done => pure ()
  | fail e => do
    VisitM.report (tag, .failed e)
    throw e
  | put own next => do
    VisitM.onOwn (set own)
    next.run tag
  | look next => do
    let c := (← get).performer.coordination
    VisitM.report (tag, .looked c)
    (next c).run tag
  | ask request next => do
    let answer ← VisitM.attempt request.make
    VisitM.report (tag, .asked request answer)
    (next answer).run tag

/-- A script does not fail, from a coordination on. -/
def Settles : Script δ σ → Coordination δ → Prop
  | done, _ => True
  | fail _, _ => False
  | put _ next, c => next.Settles c
  | look next, c => (next c).Settles c
  | ask request next, c =>
    match request.make c with
    | .ok _ c' => (next (.ok ())).Settles c'
    | .error m c' => (next (.error m)).Settles c'

end Script

/-- A visitor that acts by scripts, which depend on the node, the data and its own state. -/
structure Actor (α δ σ : Type) where
  visit : Tree α → δ → σ → Script δ σ
  leave : Tree α → δ → σ → Script δ σ

namespace Actor

/-- The visitor that an actor is, with everything recorded under a tag. -/
def recorded (a : Actor α δ σ) (tag : ι) : CoordinatedVisitor α δ σ (ι × Moment α δ) where
  visit t data := do
    VisitM.report (tag, .begun t data)
    (a.visit t data (← get).performer.own).run tag
    VisitM.report (tag, .ended)
  leave t data := do
    VisitM.report (tag, .back t data)
    (a.leave t data (← get).performer.own).run tag

/-- An actor that never fails: neither in a visit nor in a return. -/
def Steady (a : Actor α δ σ) : Prop :=
  ∀ t data own c, c.data ≠ [] →
    (c.state = .undecided → (a.visit t data own).Settles c) ∧
      (c.state = .initial → (a.leave t data own).Settles c)

end Actor

end GraphQL
