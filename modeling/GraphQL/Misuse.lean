/-! Interruptions: why a visit does not come to its end. -/
namespace GraphQL

/-- The states of a coordination. -/
inductive CoordinationState where
  /-- Between visits. -/
  | initial
  /-- In a visit, with nothing decided about the children. -/
  | undecided
  /-- In a visit, with the children to be skipped. -/
  | skipping
  /-- In a visit, with the children to be visited. -/
  | visiting
  | aborted
  | completed
  deriving DecidableEq

def CoordinationState.label : CoordinationState → String
  | .initial => "Initial"
  | .undecided => "BeforeVisitingChildren"
  | .skipping => "SkippingChildren"
  | .visiting => "AfterVisitingChildren"
  | .aborted => "Aborted"
  | .completed => "Completed"

/-- The decisions that a visit can take about the children of its node. -/
inductive Decision where
  | abort
  | skip
  | visit
  | visitWith
  deriving DecidableEq

def Decision.label : Decision → String
  | .abort => "abort"
  | .skip => "skip_children"
  | .visit => "visit_children"
  | .visitWith => "visit_children_with"

/-- What visitors must not do. -/
inductive Misuse where
  /-- Descending where nothing is being traversed. -/
  | descendOutside
  /-- Descending with new data where nothing is being traversed. -/
  | descendWithOutside
  /-- Deciding outside a visit, or twice in one. -/
  | decision (taken : Decision) (state : CoordinationState)
  /-- Taking part in two walks at a time. -/
  | attachedTwice
  /-- A visit that starts in the wrong state. -/
  | dispatch (state : CoordinationState)
  /-- A visit that ends in the wrong state. -/
  | leftDispatch (state : CoordinationState)
  /-- No data for the current node. -/
  | noData
  deriving DecidableEq

def Misuse.message : Misuse → String
  | .descendOutside => "MisuseError: descend() called outside of an active traversal"
  | .descendWithOutside => "MisuseError: descend_with() called outside of an active traversal"
  | .decision taken state =>
    s!"MisuseError: VisitCoordination::{taken.label}() called in state {state.label}; " ++
      "it is only allowed while visiting a node, before deciding on its children"
  | .attachedTwice => "MisuseError: VisitCoordination is already attached to an active walk"
  | .dispatch state =>
    s!"MisuseError: cannot dispatch into a VisitCoordination in state {state.label}"
  | .leftDispatch state =>
    s!"MisuseError: VisitCoordination left its dispatch in state {state.label}"
  | .noData => "MisuseError: VisitCoordination has no data for the current node"

/-- Why a visit does not come to its end. -/
inductive Interruption where
  | misuse (misuse : Misuse)
  /-- A failure of the visitor's own. -/
  | failure (message : String)
  /-- Visits inside each other beyond the bound given. -/
  | exhausted
  deriving DecidableEq

def Interruption.message : Interruption → String
  | .misuse m => m.message
  | .failure message => message
  | .exhausted => "visits nested beyond their bound"

end GraphQL
