import GraphQL.Walk.Traversal

/-! Frames of traversals. What a visit can do is to go down, to traverse other trees, to look at the
frames and to fail, as often and in whatever order it likes. All of it is as if every visit were
told which visits it is in, and there were no stack. -/
namespace GraphQL

variable {α δ σ ω β : Type}

/-- What a visitor does in a visit. What it asks for may fail; a visitor that does not catch that
fails with it. -/
inductive Itinerary (α δ σ ω : Type) where
  | done (result : ω)
  | fail (e : Interruption)
  /-- Reads the visitor's own state. -/
  | read (next : σ → Itinerary α δ σ ω)
  | write (own : σ) (next : Itinerary α δ σ ω)
  /-- Looks at the frames. -/
  | look (next : List (Frame α δ) → Itinerary α δ σ ω)
  | descend (next : Except Interruption (List ω) → Itinerary α δ σ ω)
  | descendWith (data : δ) (next : Except Interruption (List ω) → Itinerary α δ σ ω)
  /-- Traverses any tree with any data. -/
  | traverse (t : Tree α) (data : δ) (next : Except Interruption ω → Itinerary α δ σ ω)

/-- Runs an action to its end, and returns what that was. -/
def attempt {ς : Type} (act : EStateM Interruption ς β) :
    EStateM Interruption ς (Except Interruption β) := fun s =>
  match act s with
  | .ok b s' => .ok (.ok b) s'
  | .error e s' => .ok (.error e) s'

namespace Itinerary

/-- Acts in a traversal, where there is a way to traverse trees. -/
def run (go : Traversal.Goer α δ σ ω) : Itinerary α δ σ ω → TraversalM α δ σ ω
  | done result => pure result
  | fail e => throw e
  | read next => do
    let own := (← get).own
    (next own).run go
  | write own next => do
    Traversal.onOwn (set own)
    next.run go
  | look next => do
    let frames := (← get).frames
    (next frames).run go
  | descend next => do
    let answer ← attempt (Traversal.descend go)
    (next answer).run go
  | descendWith data next => do
    let answer ← attempt (Traversal.descendWith go data)
    (next answer).run go
  | traverse t data next => do
    let answer ← attempt (go t data)
    (next answer).run go

/-- Goes to trees one by one, and collects one result for each. -/
def row (go : Tree α → EStateM Interruption σ ω) : List (Tree α) → EStateM Interruption σ (List ω)
  | [] => pure []
  | t :: ts => do
    let result ← go t
    let results ← row go ts
    return result :: results

/-- Acts within visits that are known, innermost first. Going down is to the children of the
innermost; outside all visits it is a misuse. -/
def act (go : List (Frame α δ) → Tree α → δ → EStateM Interruption σ ω) (visits : List (Frame α δ)) :
    Itinerary α δ σ ω → EStateM Interruption σ ω
  | done result => pure result
  | fail e => throw e
  | read next => do
    let own ← get
    (next own).act go visits
  | write own next => do
    set own
    next.act go visits
  | look next => (next visits).act go visits
  | descend next => do
    let answer ← attempt <|
      match visits with
      | [] => throw (.misuse .descendOutside)
      | f :: _ => row (go visits · f.data) f.tree.children
    (next answer).act go visits
  | descendWith data next => do
    let answer ← attempt <|
      match visits with
      | [] => throw (.misuse .descendWithOutside)
      | f :: _ => row (go visits · data) f.tree.children
    (next answer).act go visits
  | traverse t data next => do
    let answer ← attempt (go visits t data)
    (next answer).act go visits

/-- A visitor that acts as itineraries say, in a traversal. -/
def visit (visitor : Tree α → δ → Itinerary α δ σ ω) (go : Traversal.Goer α δ σ ω) :
    Traversal.Goer α δ σ ω := fun t data => (visitor t data).run go

/-- The same without a stack. A visit is told the visits around it; inside it, it is the innermost
itself, with the data it is made with. -/
def visitWithin (visitor : Tree α → δ → Itinerary α δ σ ω) :
    Nat → List (Frame α δ) → Tree α → δ → EStateM Interruption σ ω
  | 0, _, _, _ => throw .exhausted
  | n + 1, visits, t, data => (visitor t data).act (visitWithin visitor n) (⟨t, data⟩ :: visits)

end Itinerary

namespace Traversal

open Itinerary

/-- The state in which an action ends, whether it fails or not. -/
def stateAfter {ς : Type} (act : EStateM Interruption ς β) (s : ς) : ς :=
  match act s with
  | .ok _ s' => s'
  | .error _ s' => s'

/-- From a state on, an action leaves the frames alone and does something to the visitor's own
state. -/
def ActsBeside (s : Traversal α δ σ) (p : TraversalM α δ σ β) (act : EStateM Interruption σ β) :
    Prop := p s = onOwn act s

namespace ActsBeside

variable {γ : Type} {s : Traversal α δ σ} {p : TraversalM α δ σ β} {act : EStateM Interruption σ β}

theorem frames (h : ActsBeside s p act) : (stateAfter p s).frames = s.frames := by
  rw [stateAfter, h, onOwn]
  cases act s.own <;> rfl

/-- What follows finds the frames as they were. -/
theorem bind {f : β → TraversalM α δ σ γ} {g : β → EStateM Interruption σ γ}
    (h : ActsBeside s p act) (rest : ∀ b own, ActsBeside ⟨s.frames, own⟩ (f b) (g b)) :
    ActsBeside s (p >>= f) (act >>= g) := by
  simp only [ActsBeside, Bind.bind, EStateM.bind, onOwn] at h rest ⊢
  rw [h]
  cases act s.own with
  | ok b own => exact rest b own
  | error e own => rfl

/-- Also what was interrupted has left the frames alone. -/
theorem attempt (h : ActsBeside s p act) :
    ActsBeside s (GraphQL.attempt p) (GraphQL.attempt act) := by
  simp only [ActsBeside, GraphQL.attempt, onOwn] at h ⊢
  rw [h]
  cases act s.own <;> rfl

end ActsBeside

section Goers

variable {go : Goer α δ σ ω} {go' : List (Frame α δ) → Tree α → δ → EStateM Interruption σ ω}
  (goes : ∀ t data s, ActsBeside s (go t data) (go' s.frames t data))
include goes

theorem row_beside (data : δ) (ts : List (Tree α)) (s : Traversal α δ σ) :
    ActsBeside s (ts.mapM (go · data)) (row (go' s.frames · data) ts) := by
  induction ts generalizing s with
  | nil => rfl
  | cons t ts ih =>
    rw [List.mapM_cons, row]
    apply (goes t data s).bind
    intro result own
    exact (ih _).bind fun results own => rfl

/-- Going down does to the children of the newest frame what is done to any tree. -/
theorem descend_beside (s : Traversal α δ σ) :
    ActsBeside s (descend go) <|
      match s.frames with
      | [] => throw (.misuse .descendOutside)
      | f :: _ => row (go' s.frames · f.data) f.tree.children := by
  obtain ⟨frames, own⟩ := s
  cases frames with
  | nil => rfl
  | cons f outer => exact row_beside goes f.data f.tree.children ⟨f :: outer, own⟩

theorem descendWith_beside (data : δ) (s : Traversal α δ σ) :
    ActsBeside s (descendWith go data) <|
      match s.frames with
      | [] => throw (.misuse .descendWithOutside)
      | f :: _ => row (go' s.frames · data) f.tree.children := by
  obtain ⟨frames, own⟩ := s
  cases frames with
  | nil => rfl
  | cons f outer => exact row_beside goes data f.tree.children ⟨f :: outer, own⟩

/-- An itinerary sees the frames as the visits that it is in. -/
theorem run_beside (i : Itinerary α δ σ ω) (s : Traversal α δ σ) :
    ActsBeside s (i.run go) (i.act go' s.frames) := by
  induction i generalizing s with
  | done result => rfl
  | fail e => rfl
  | read next ih => exact ih s.own s
  | write own next ih => exact ih ⟨s.frames, own⟩
  | look next ih => exact ih s.frames s
  | descend next ih => exact (descend_beside goes s).attempt.bind fun answer own => ih answer _
  | descendWith data next ih =>
    exact (descendWith_beside goes data s).attempt.bind fun answer own => ih answer _
  | traverse t data next ih => exact (goes t data s).attempt.bind fun answer own => ih answer _

end Goers

/-- A frame is there for the time of its visit. -/
theorem traverse_beside (visitor : Tree α → δ → Itinerary α δ σ ω) (n : Nat) (t : Tree α) (data : δ)
    (s : Traversal α δ σ) :
    ActsBeside s (traverse (Itinerary.visit visitor) n t data)
      (visitWithin visitor n s.frames t data) := by
  induction n generalizing t data s with
  | zero => rfl
  | succ n ih =>
    have inside := run_beside ih (visitor t data) (s.push t data)
    simp only [ActsBeside, traverse, within, Itinerary.visit, visitWithin] at inside ⊢
    rw [inside]
    simp only [onOwn, push]
    cases (visitor t data).act (visitWithin visitor n) (⟨t, data⟩ :: s.frames) s.own <;> rfl

/-- The frames of a traversal are the visits being made, and nothing but them. Whatever visitors do
in their visits, and whatever is done outside them, runs as if each visit were told the visits
around it and went down to its own children with its own data, child by child; and however a
traversal ends, the frames are those before it. Going down outside all visits is refused and
changes nothing. -/
theorem frames_discipline (visitor : Tree α → δ → Itinerary α δ σ ω) (n : Nat)
    (s : Traversal α δ σ) :
    let go := traverse (Itinerary.visit visitor) n
    (∀ i : Itinerary α δ σ ω,
      i.run go s = onOwn (i.act (visitWithin visitor n) s.frames) s ∧
        (stateAfter (i.run go) s).frames = s.frames) ∧
      (∀ t data,
        go t data s = onOwn (visitWithin visitor n s.frames t data) s ∧
          (stateAfter (go t data) s).frames = s.frames) ∧
      ∀ own data,
        descend go ⟨[], own⟩ = .error (.misuse .descendOutside) ⟨[], own⟩ ∧
          descendWith go data ⟨[], own⟩ = .error (.misuse .descendWithOutside) ⟨[], own⟩ := by
  intro go
  have goes := traverse_beside visitor n
  refine ⟨fun i => ?_, fun t data => ?_, fun own data => ⟨rfl, rfl⟩⟩
  · have inside := run_beside goes i s
    exact ⟨inside, inside.frames⟩
  · exact ⟨goes t data s, (goes t data s).frames⟩

end Traversal
end GraphQL
