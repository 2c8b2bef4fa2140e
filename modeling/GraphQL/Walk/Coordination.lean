import GraphQL.Misuse

/-! Coordination: how one visitor among several decides, at each node, what becomes of the children.
-/
namespace GraphQL

/-- What a visit has decided, as a walk needs to know it. -/
inductive Verdict where
  | visit
  | skip
  | abort
  deriving DecidableEq

/-- The state of a visitor's part in a walk. The data of the nodes on the way to the current one are
kept as a stack, the newest first; the last are the data for the root. -/
structure Coordination (δ : Type) where
  state : CoordinationState
  attached : Bool
  data : List δ

namespace Coordination

variable {δ : Type}

/-- What happens to a coordination. A misuse keeps the state reached. -/
abbrev Step (δ β : Type) := EStateM Misuse (Coordination δ) β

/-- A coordination outside any walk. -/
def new (data : δ) : Coordination δ := ⟨.initial, false, [data]⟩

/-- Whether the visitor has given up. -/
def isAborted (c : Coordination δ) : Bool := c.state == .aborted

/-- Puts the coordination into another state. -/
def setState (state : CoordinationState) : Step δ Unit := modify ({ · with state })

/-- The data of the current node. -/
def currentData : Step δ δ := do
  match (← get).data with
  | d :: _ => return d
  | [] => throw .noData

/-- A decision is in order during a visit that has taken none so far. -/
def expectUndecided (taken : Decision) : Step δ Unit := do
  let c ← get
  if c.state = .undecided then return () else throw (.decision taken c.state)

/-- Decides to give up. -/
def abort : Step δ Unit := do
  expectUndecided .abort
  setState .aborted

/-- Decides to skip the children. -/
def skipChildren : Step δ Unit := do
  expectUndecided .skip
  setState .skipping

/-- Decides to visit the children with given data. -/
def enterChildren (data : δ) : Step δ Unit := do
  modify fun c => { c with data := data :: c.data }
  setState .visiting

/-- Decides to visit the children with the same data. -/
def visitChildren : Step δ Unit := do
  expectUndecided .visit
  enterChildren (← currentData)

/-- Decides to visit the children with other data. -/
def visitChildrenWith (data : δ) : Step δ Unit := do
  expectUndecided .visitWith
  enterChildren data

/-- Joins a walk. Only the data for the root are kept from an earlier one. -/
def attach : Step δ Unit := do
  let c ← get
  if c.attached then throw .attachedTwice
  else modify fun c => ⟨.initial, true, c.data.getLast?.toList⟩

/-- Leaves a walk. -/
def detach (c : Coordination δ) : Coordination δ :=
  { c with attached := false, state := if c.state = .aborted then .aborted else .completed }

/-- Begins a visit and returns the data for it. -/
def beginDispatch : Step δ δ := do
  let c ← get
  if c.state = .initial then
    setState .undecided
    currentData
  else throw (.dispatch c.state)

/-- Ends a visit and returns what it has decided. Without a decision the children are visited with
the same data. -/
def finishDispatch : Step δ Verdict := do
  match (← get).state with
  | .undecided =>
    visitChildren
    setState .initial
    return .visit
  | .visiting =>
    setState .initial
    return .visit
  | .skipping =>
    setState .initial
    return .skip
  | .aborted => return .abort
  | state => throw (.leftDispatch state)

/-- Comes back from the children and returns the data of the node. -/
def finishChildren : Step δ δ := do
  modify fun c => { c with data := c.data.tail }
  currentData

end Coordination
end GraphQL
