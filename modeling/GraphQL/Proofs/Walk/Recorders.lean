import GraphQL.Proofs.Walk.Shared
import GraphQL.Proofs.Walk.Stages
import GraphQL.Proofs.Walk.Tours
import Mathlib.Logic.Function.Iterate

/-! Recorders: visitors that take notes and always go on. A walk that they share completes, and each
has taken note of all nodes in preorder, with the data that come down to them. -/
namespace GraphQL

variable {α δ σ ε : Type}

/-- The plan of a visitor that takes notes. -/
def Plan.recording (choose : δ → Choice δ) (note : α → δ → σ → σ) : Plan α δ σ where
  visit t data own := (choose data, note t.label data own)
  leave _ _ own := own

/-- A visitor that takes notes and always goes on, with the data for the root and its own state. -/
structure Recorder (α δ σ ε : Type) where
  visitor : CoordinatedVisitor α δ σ ε
  choose : δ → Choice δ
  note : α → δ → σ → σ
  follows : visitor.Follows (.recording choose note)
  goesOn : ∀ data, (choose data).verdict = .visit
  root : δ
  own : σ

namespace Recorder

/-- The data for nodes at some depth. -/
def dataAt (r : Recorder α δ σ ε) (depth : Nat) : δ :=
  (fun data => (r.choose data).below data)^[depth] r.root

/-- The data on the way down to some depth, the newest first. -/
def stack (r : Recorder α δ σ ε) : Nat → List δ
  | 0 => [r.root]
  | depth + 1 => r.dataAt (depth + 1) :: r.stack depth

/-- The seat of a recorder in a walk, at some depth. -/
def seat (depth : Nat) (r : Recorder α δ σ ε) : Seat α δ σ ε :=
  ⟨r.visitor, ⟨⟨.initial, true, r.stack depth⟩, r.own⟩, false, none⟩

/-- A recorder after it has seen some nodes, given with their depths. -/
def seen (nodes : List (Nat × α)) (r : Recorder α δ σ ε) : Recorder α δ σ ε :=
  { r with own := nodes.foldl (fun own (depth, a) => r.note a (r.dataAt depth) own) r.own }

variable {r : Recorder α δ σ ε} {depth : Nat}

theorem exists_stack (r : Recorder α δ σ ε) (depth : Nat) :
    ∃ above, r.stack depth = r.dataAt depth :: above := by
  cases depth with
  | zero => exact ⟨[], rfl⟩
  | succ depth => exact ⟨r.stack depth, rfl⟩

theorem dataAt_succ : r.dataAt (depth + 1) = (r.choose (r.dataAt depth)).below (r.dataAt depth) :=
  Function.iterate_succ_apply' ..

@[simp] theorem seen_nil : r.seen [] = r := rfl

@[simp] theorem seen_append (nodes nodes' : List (Nat × α)) :
    r.seen (nodes ++ nodes') = (r.seen nodes).seen nodes' :=
  congrArg (fun own => { r with own }) (List.foldl_append ..)

/-- What has been seen does not change what comes down. -/
theorem stack_seen (nodes : List (Nat × α)) (depth : Nat) :
    (r.seen nodes).stack depth = r.stack depth := by
  induction depth with
  | zero => rfl
  | succ depth ih => exact congrArg (r.dataAt (depth + 1) :: ·) ih

/-- A visit takes note of the node and decides to go on. -/
theorem dispatch (r : Recorder α δ σ ε) (t : Tree α) (data : δ) (above : List δ) (own : σ) :
    ∃ reports, Seat.dispatch r.visitor t ⟨⟨⟨.initial, true, data :: above⟩, own⟩, []⟩ =
      .ok .visit ⟨⟨⟨.initial, true, (r.choose data).below data :: data :: above⟩,
        r.note t.label data own⟩, reports⟩ := by
  obtain ⟨c, reports, taken, visited⟩ := r.follows.visit t data own
    ⟨.undecided, true, data :: above⟩ [] rfl (List.cons_ne_nil data above)
  have settled : (r.choose data).settled data above =
      ⟨.initial, true, (r.choose data).below data :: data :: above⟩ := by
    have goes_on := r.goesOn data
    cases choice : r.choose data <;> simp_all [Choice.verdict, Choice.settled]
  have finished := Choice.finish_take _ _ _ taken
  simp only [Plan.recording] at finished
  rw [r.goesOn, settled] at finished
  refine ⟨reports, ?_⟩
  show (do
    r.visitor.visit t data
    VisitM.coordinate Coordination.finishDispatch : VisitM δ σ ε Verdict)
      ⟨⟨⟨.undecided, true, data :: above⟩, own⟩, []⟩ = _
  simp only [bind, EStateM.bind, visited, VisitM.coordinate, finished]
  rfl

/-- At a node, a recorder takes note of it and goes on. -/
theorem enter_seat (t : Tree α) (depth : Nat) (r : Recorder α δ σ ε) :
    ∃ reports, (r.seat depth).enter t depth =
      ((r.seen [(depth, t.label)]).seat (depth + 1), reports, .ok ()) := by
  obtain ⟨above, stack⟩ := r.exists_stack depth
  obtain ⟨reports, dispatched⟩ := r.dispatch t (r.dataAt depth) above r.own
  refine ⟨reports, ?_⟩
  have next : (r.seen [(depth, t.label)]).stack (depth + 1) =
      (r.choose (r.dataAt depth)).below (r.dataAt depth) :: r.dataAt depth :: above := by
    rw [stack_seen, ← dataAt_succ, ← stack]
    rfl
  simp only [Seat.enter, seat, Seat.isListening, Seat.perform, stack, dispatched, next]
  rfl

/-- On the way back nothing is noted. -/
theorem leave_seat (t : Tree α) (depth : Nat) (r : Recorder α δ σ ε) :
    ∃ reports, (r.seat (depth + 1)).leave t depth = (r.seat depth, reports, .ok ()) := by
  obtain ⟨above, stack⟩ := r.exists_stack depth
  obtain ⟨reports, left⟩ := r.follows.leave t (r.dataAt depth) r.own
    ⟨.initial, true, r.dataAt depth :: above⟩ [] rfl
  have back : Seat.comeBack r.visitor t
      ⟨⟨⟨.initial, true, r.stack (depth + 1)⟩, r.own⟩, []⟩ =
        .ok () ⟨⟨⟨.initial, true, r.stack depth⟩, r.own⟩, reports⟩ := by
    rw [Recorder.stack, stack]
    exact left
  refine ⟨reports, ?_⟩
  simp only [Seat.leave, seat, Seat.perform, back]
  rfl

end Recorder

/-! ### Walks -/

section

variable {rs : List (Recorder α δ σ ε)}

/-- A step that all recorders take. -/
theorem Stage.sweep_recorders (rs : List (Recorder α δ σ ε)) {step : Seat.Step α δ σ ε} {f g : Recorder α δ σ ε → Seat α δ σ ε}
    (steps : ∀ r, ∃ reports, step (f r) = (g r, reports, .ok ())) (log : List ε) :
    ∃ log', Stage.sweep step ⟨rs.map f, log⟩ = .ok () ⟨rs.map g, log'⟩ := by
  have swept : ∃ reports, Seat.sweep step (rs.map f) = (rs.map g, reports, .ok ()) := by
    induction rs with
    | nil => exact ⟨[], rfl⟩
    | cons r rs ih =>
      obtain ⟨reports, stepped⟩ := steps r
      obtain ⟨reports', swept⟩ := ih
      exact ⟨reports ++ reports', by simp only [List.map_cons, Seat.sweep, stepped, swept]⟩
  obtain ⟨reports, swept⟩ := swept
  exact ⟨log ++ reports, by simp only [Stage.sweep, swept]⟩

/-- No recorder gives up. -/
theorem Stage.recorders_remain (some_recorder : rs ≠ []) (depth : Nat) :
    (rs.map (·.seat depth)).all (·.aborted) = false := by
  obtain ⟨r, rs, rfl⟩ := List.exists_cons_of_ne_nil some_recorder
  rfl

/-- All recorders listen. -/
theorem Stage.recorders_listen (some_recorder : rs ≠ []) (depth : Nat) :
    (rs.map (·.seat depth)).any (·.isListening) = true := by
  obtain ⟨r, rs, rfl⟩ := List.exists_cons_of_ne_nil some_recorder
  rfl

mutual

/-- A walk over a tree that recorders share comes to its end, and they have seen the nodes in
preorder. -/
theorem Stage.walkTree_recorders {rs : List (Recorder α δ σ ε)} (some_recorder : rs ≠ [])
    (t : Tree α) (depth : Nat) (log : List ε) :
    ∃ log', Stage.walkTree depth t ⟨rs.map (·.seat depth), log⟩ =
      .ok false ⟨(rs.map (·.seen (t.preorderDepths depth))).map (·.seat depth), log'⟩ := by
  match t with
  | .node a ts =>
    obtain ⟨log₁, entered⟩ := Stage.sweep_recorders rs
      (fun r => r.enter_seat (.node a ts) depth) log
    let noted := rs.map (·.seen [(depth, a)])
    have some_noted : noted ≠ [] := by simpa [noted] using some_recorder
    obtain ⟨log₂, below⟩ := Stage.walkRow_recorders some_noted ts (depth + 1) log₁
    obtain ⟨log₃, left⟩ := Stage.sweep_recorders
      (noted.map (·.seen (Tree.preorderDepthsOf (depth + 1) ts)))
      (fun r => r.leave_seat (.node a ts) depth) log₂
    have remain := Stage.recorders_remain some_noted (depth + 1)
    have here : (rs.map fun r => (r.seen [(depth, a)]).seat (depth + 1)) =
        noted.map (·.seat (depth + 1)) := by simp [noted]
    have whole : noted.map (·.seen (Tree.preorderDepthsOf (depth + 1) ts)) =
        rs.map (·.seen ((Tree.node a ts).preorderDepths depth)) := by
      simp [noted, Tree.preorderDepths, ← Recorder.seen_append]
    rw [Tree.label, here] at entered
    rw [whole] at below left
    refine ⟨log₃, ?_⟩
    rw [Stage.walkTree]
    refine Stage.bind_ok.mpr ⟨(), _, entered, ?_⟩
    simp only [Stage.get_bind, remain, Bool.false_eq_true, if_false]
    exact Stage.bind_ok.mpr ⟨false, _, below, Stage.bind_ok.mpr ⟨(), _, left, rfl⟩⟩

theorem Stage.walkRow_recorders {rs : List (Recorder α δ σ ε)} (some_recorder : rs ≠ [])
    (ts : List (Tree α)) (depth : Nat) (log : List ε) :
    ∃ log', Stage.walkRow depth ts ⟨rs.map (·.seat depth), log⟩ =
      .ok false ⟨(rs.map (·.seen (Tree.preorderDepthsOf depth ts))).map (·.seat depth), log'⟩ := by
  match ts with
  | [] => exact ⟨log, by simp [Stage.walkRow, Tree.preorderDepthsOf]; rfl⟩
  | t :: ts =>
    obtain ⟨log₁, first⟩ := Stage.walkTree_recorders some_recorder t depth log
    have some_later : rs.map (·.seen (t.preorderDepths depth)) ≠ [] := by simpa using some_recorder
    obtain ⟨log₂, later⟩ := Stage.walkRow_recorders some_later ts depth log₁
    have listen := Stage.recorders_listen some_recorder depth
    have whole : (rs.map (·.seen (t.preorderDepths depth))).map
          (·.seen (Tree.preorderDepthsOf depth ts)) =
        rs.map (·.seen (Tree.preorderDepthsOf depth (t :: ts))) := by
      simp [Tree.preorderDepthsOf]
    rw [whole] at later
    refine ⟨log₂, ?_⟩
    rw [Stage.walkRow, Stage.get_bind]
    simp only [listen, if_true]
    exact Stage.bind_ok.mpr ⟨false, _, first, later⟩

end

end

/-- A seat outside any walk whose visitor is a recorder, with its own state. -/
structure Recorder.Rests (r : Recorder α δ σ ε) (s : Seat α δ σ ε) : Prop where
  visitor : s.visitor = r.visitor
  free : s.IsFree
  root : s.rootData = some r.root
  own : s.performer.own = r.own

/-- A recorder that has come into being is in no walk. -/
theorem Recorder.rests_new (r : Recorder α δ σ ε) :
    r.Rests (.new r.visitor ⟨.new r.root, r.own⟩) := ⟨rfl, rfl, rfl, rfl⟩

theorem Recorder.Rests.joined {r : Recorder α δ σ ε} {s : Seat α δ σ ε} (rests : r.Rests s) :
    s.joined = r.seat 0 := by
  rw [Seat.joined, rests.visitor, rests.root, rests.own]
  rfl

theorem Recorder.rests_detach (r : Recorder α δ σ ε) : r.Rests (r.seat 0).detach :=
  ⟨rfl, rfl, rfl, rfl⟩

section

variable {rs : List (Recorder α δ σ ε)} {seats : List (Seat α δ σ ε)}

theorem Recorder.free_of_rest (rest : List.Forall₂ Recorder.Rests rs seats) :
    ∀ s ∈ seats, s.IsFree := by
  induction rest with
  | nil => exact List.forall_mem_nil _
  | cons rests _ ih => exact List.forall_mem_cons.mpr ⟨rests.free, ih⟩

theorem Recorder.map_joined_of_rest (rest : List.Forall₂ Recorder.Rests rs seats) :
    seats.map Seat.joined = rs.map (·.seat 0) := by
  induction rest with
  | nil => rfl
  | cons rests _ ih => rw [List.map_cons, List.map_cons, rests.joined, ih]

/-- A walk that recorders share completes, and they rest after it. -/
theorem walk_recorders (some_recorder : rs ≠ []) (rest : List.Forall₂ Recorder.Rests rs seats)
    (t : Tree α) :
    (walk t seats).2.2 = .ok .completed ∧
      List.Forall₂ Recorder.Rests (rs.map (·.seen (t.preorderDepths 0))) (walk t seats).1 := by
  obtain ⟨reports, walked⟩ := Stage.walkTree_recorders some_recorder t 0 []
  have attached : Stage.walkAttached t ⟨seats.map Seat.joined, []⟩ =
      .ok .completed ⟨(rs.map (·.seen (t.preorderDepths 0))).map (·.seat 0), reports⟩ := by
    have present : (rs.map (·.seat 0)).isEmpty = false := by simpa using some_recorder
    rw [Recorder.map_joined_of_rest rest]
    rw [Stage.walkAttached, Stage.get_bind]
    simp only [present, Bool.false_eq_true, if_false]
    exact Stage.bind_ok.mpr ⟨false, _, walked, rfl⟩
  rw [walk_of_free t (Recorder.free_of_rest rest), attached]
  refine ⟨rfl, ?_⟩
  rw [List.forall₂_map_right_iff, List.forall₂_map_right_iff, List.forall₂_same]
  exact fun r _ => r.rests_detach

/-- Walks over some trees, one after the other. -/
def walks (seats : List (Seat α δ σ ε)) (ts : List (Tree α)) : List (Seat α δ σ ε) :=
  ts.foldl (fun seats t => (walk t seats).1) seats

/-- Recorders that share walks over some trees complete each of them, and have seen all nodes of
all trees. -/
theorem walks_recorders (some_recorder : rs ≠ []) (rest : List.Forall₂ Recorder.Rests rs seats)
    (ts : List (Tree α)) :
    List.Forall₂ Recorder.Rests (rs.map (·.seen (ts.flatMap (·.preorderDepths 0))))
      (walks seats ts) := by
  induction ts generalizing rs seats with
  | nil => simpa [walks] using rest
  | cons t ts ih =>
    have some_later : rs.map (·.seen (t.preorderDepths 0)) ≠ [] := by simpa using some_recorder
    have later := ih some_later (walk_recorders some_recorder rest t).2
    simpa [walks] using later

end

end GraphQL
