import GraphQL.Visitor
import GraphQL.Walk.Parallel

/-! Statistics: how many nodes of each sort some documents have, and how deep they are. Two visitors
that share a walk over each document collect them. -/
namespace GraphQL

/-- What has been counted: nodes by their sorts, in the order in which the sorts were first seen,
and definitions. -/
structure Census where
  counts : List (Kind × Nat)
  executable : Nat
  typeSystem : Nat
  deriving DecidableEq

namespace Census

/-- Nothing has been counted. -/
def empty : Census := ⟨[], 0, 0⟩

/-- Adds one to the count of a sort. -/
def increment (k : Kind) : List (Kind × Nat) → List (Kind × Nat)
  | [] => [(k, 1)]
  | (j, n) :: counts => if j = k then (j, n + 1) :: counts else (j, n) :: increment k counts

/-- Counts a node. -/
def addNode (n : Node) (c : Census) : Census := { c with counts := increment n.kind c.counts }

/-- Counts an executable definition. -/
def addExecutable (c : Census) : Census := { c with executable := c.executable + 1 }

/-- Counts a definition or an extension in the type system. -/
def addTypeSystem (c : Census) : Census := { c with typeSystem := c.typeSystem + 1 }

/-- The number of all nodes. -/
def total (c : Census) : Nat := c.counts.foldr (fun p n => p.2 + n) 0

/-- The counts, the highest first; equal ones in the order in which the sorts were first seen. -/
def sortedCounts (c : Census) : List (Kind × Nat) :=
  c.counts.mergeSort fun a b => decide (b.2 ≤ a.2)

/-- The handler of the definitions in a group: one more of the group, and a node. -/
def counting (add : Census → Census) (n : Node) (_ : Nat) : StateM Census Unit :=
  modify fun c => addNode n (add c)

/-- Counts every node, and definitions by their groups. -/
def visitor : Visitor (StateM Census) Nat Unit where
  role?
    | .category .executableDefinition => some (counting addExecutable)
    | .category .typeSystemDefinition => some (counting addTypeSystem)
    | .category .typeSystemExtension => some (counting addTypeSystem)
    | _ => none
  node := counting id

end Census

/-- What the visitors have collected. -/
structure Statistics where
  census : Census
  /-- The depth of the deepest node; a root is at depth zero. -/
  deepest : Nat
  deriving DecidableEq

namespace Statistics

/-- Nothing has been collected. -/
def empty : Statistics := ⟨Census.empty, 0⟩

/-- A visitor that collects statistics. The data of a node are its depth. -/
abbrev Collector := CoordinatedVisitor Node Nat Statistics Unit

/-- Counts nodes. -/
def counter : Collector where
  visit t depth := VisitM.onOwn <| modify fun s =>
    { s with census := ((Census.visitor.visit t.label depth).run s.census).2 }
  leave _ _ := return ()

/-- Measures depths. -/
def depthGauge : Collector where
  visit _ depth := do
    VisitM.onOwn <| modify fun s => { s with deepest := max s.deepest depth }
    VisitM.coordinate (Coordination.visitChildrenWith (depth + 1))
  leave _ _ := return ()

/-- The two visitors before they have seen anything. -/
def collectors : List (Seat Node Nat Statistics Unit) :=
  [counter, depthGauge].map fun v => Seat.new v ⟨Coordination.new 0, empty⟩

/-- Lets the visitors walk over one more document. -/
def survey (seats : List (Seat Node Nat Statistics Unit)) (d : Document) :
    List (Seat Node Nat Statistics Unit) :=
  (walk d.tree seats).1

/-- What the visitors have collected so far. -/
def ofSeats (seats : List (Seat Node Nat Statistics Unit)) : Statistics :=
  match seats.map (·.performer.own) with
  | [counted, measured] => ⟨counted.census, measured.deepest⟩
  | _ => empty

/-- The statistics of documents that are walked over one after the other. -/
def ofDocuments (ds : List Document) : Statistics := ofSeats (ds.foldl survey collectors)

/-- The statistics as text. -/
def render (s : Statistics) : String :=
  let counts := s.census.sortedCounts.map fun (k, n) => s!"\n      {k.label}: {n}"
  s!"  * {s.census.total} nodes, at most {s.deepest} deep.\n" ++
    s!"  * {s.census.executable} executable definitions.\n" ++
    s!"  * {s.census.typeSystem} type system definitions.\n" ++
    "  * Node kinds:" ++ String.join counts

end Statistics
end GraphQL
