import GraphQL.Proofs.Walk.Contexts
import GraphQL.Proofs.Walk.Shared

/-! Orders of visits. Visitors that do not steer see a whole tree in preorder and leave it in
postorder, and so do traversals that go down once at every node. -/
namespace GraphQL

variable {α δ σ ω ε : Type}

/-! ### Undecided visitors -/

namespace Event

/-- The label of the node that is visited, if it is a visit. -/
def visited? : Event α δ → Option α
  | visit t _ => some t.label
  | leave _ _ => none

/-- The label of the node that is left, if it is a return. -/
def left? : Event α δ → Option α
  | visit _ _ => none
  | leave t _ => some t.label

end Event

namespace Plan

/-- A plan without any decision. -/
def Undecided (plan : Plan α δ σ) : Prop := ∀ t data own, (plan.visit t data own).1 = .undecided

variable {plan : Plan α δ σ}

mutual

/-- Without decisions, all of a tree is seen. -/
theorem walkTree_undecided (undecided : plan.Undecided) (t : Tree α) (data : δ) (own : σ) :
    (plan.walkTree t data own).aborted = false ∧
      (plan.walkTree t data own).log.filterMap Event.visited? = t.preorder ∧
      (plan.walkTree t data own).log.filterMap Event.left? = t.postorder := by
  match t with
  | .node a ts =>
    obtain ⟨own', visit⟩ : ∃ own', plan.visit (.node a ts) data own = (.undecided, own') :=
      ⟨_, Prod.ext (undecided _ data own) rfl⟩
    obtain ⟨stays, visited, left⟩ := walkRow_undecided undecided ts data own'
    simp only [walkTree, visit, Choice.below, stays, Bool.false_eq_true, if_false]
    refine ⟨trivial, ?_, ?_⟩
    · simp [Event.visited?, Tree.preorder, Tree.label, visited]
    · rw [List.filterMap_cons_none rfl, List.filterMap_append, left, Tree.postorder]
      rfl

theorem walkRow_undecided (undecided : plan.Undecided) (ts : List (Tree α)) (data : δ) (own : σ) :
    (plan.walkRow ts data own).aborted = false ∧
      (plan.walkRow ts data own).log.filterMap Event.visited? = Tree.preorderOf ts ∧
      (plan.walkRow ts data own).log.filterMap Event.left? = Tree.postorderOf ts := by
  match ts with
  | [] => exact ⟨rfl, rfl, rfl⟩
  | t :: ts =>
    obtain ⟨stays, visited, left⟩ := walkTree_undecided undecided t data own
    obtain ⟨stays', visited', left'⟩ :=
      walkRow_undecided undecided ts data (plan.walkTree t data own).own
    simp only [walkRow, stays, Bool.false_eq_true, if_false, List.filterMap_append, visited, visited',
      left, left']
    exact ⟨stays', rfl, rfl⟩

end

end Plan

/-- A shared walk ends, and each participant has seen in it what it sees alone. -/
theorem walk_seen (t : Tree α) (parts : List (Participant α δ σ ε)) :
    ∃ seats log outcome,
      walk t (parts.zipIdx.map fun e => e.1.seat e.2) = (seats, log, .ok outcome) ∧
      ∀ p number, (p, number) ∈ parts.zipIdx → seenBy number log = (p.alone t).log := by
  have numbered : (parts.zipIdx.map Prod.snd).Pairwise (· < ·) := by
    rw [List.zipIdx_map_snd]
    exact List.pairwise_lt_range' 1
  obtain ⟨seats, joined, shown⟩ := Participant.attachAll_seat parts.zipIdx
  obtain ⟨seats', rounds, walked, -, accounts⟩ :=
    walkAttached_carriesOut numbered t (fun e => e.1.start) (fun _ => trivial) seats [] shown
  obtain ⟨outcome, ended⟩ : ∃ outcome, Stage.walkAttached t ⟨seats, []⟩ =
      .ok outcome ⟨seats', [] ++ rounds.flatMap Round.events⟩ := ⟨_, walked⟩
  refine ⟨seats'.map (·.detach), rounds.flatMap Round.events, outcome, ?_,
    fun p number listed => accounts.seen (p, number) listed⟩
  simp only [walk, joined, ended, List.nil_append]

/-! ### Visitors that go down -/

/-- A visitor that goes down once at every node, with the data it was given or with others. What it
does to its own state before and after is free, and so is what it returns. -/
structure Descender (α δ σ ω : Type) where
  before : Tree α → δ → σ → σ
  below : Tree α → δ → σ → Option δ
  after : Tree α → δ → List ω → σ → ω × σ

namespace Descender

variable (x : Descender α δ σ ω)

/-- What is done before going down, with a note of the node. -/
def start (t : Tree α) (data : δ) : TraversalM α δ (σ × List α) (Option δ) :=
  Traversal.onOwn fun (own, noted) =>
    let own := x.before t data own
    .ok (x.below t data own) (own, noted ++ [t.label])

/-- What is done after coming back. -/
def finish (t : Tree α) (data : δ) (results : List ω) : TraversalM α δ (σ × List α) ω :=
  Traversal.onOwn fun (own, noted) =>
    let (result, own) := x.after t data results own
    .ok result (own, noted)

/-- Going down with the data of the visit or with others. -/
def down (go : Traversal.Goer α δ (σ × List α) ω) : Option δ → TraversalM α δ (σ × List α) (List ω)
  | none => Traversal.descend go
  | some data => Traversal.descendWith go data

/-- A visit of one node. -/
def visit (go : Traversal.Goer α δ (σ × List α) ω) : Traversal.Goer α δ (σ × List α) ω :=
  fun t data => do
    let given ← x.start t data
    let results ← down go given
    x.finish t data results

/-- Going down visits the children of the node in the newest frame. -/
theorem down_eq (go : Traversal.Goer α δ (σ × List α) ω) (given : Option δ) (f : Frame α δ)
    (frames : List (Frame α δ)) (own : σ × List α) :
    down go given ⟨f :: frames, own⟩ =
      f.tree.children.mapM (go · (given.getD f.data)) ⟨f :: frames, own⟩ := by
  cases given <;> rfl

mutual

/-- A traversal that goes down at every node comes to all nodes in preorder, and ends. -/
theorem traverse_tree (t : Tree α) (data : δ) (n : Nat) (fits : t.size ≤ n)
    (frames : List (Frame α δ)) (own : σ) (noted : List α) :
    ∃ result own', Traversal.traverse x.visit n t data ⟨frames, (own, noted)⟩ =
      .ok result ⟨frames, (own', noted ++ t.preorder)⟩ := by
  match t, n with
  | .node a ts, 0 => simp [Tree.size] at fits
  | .node a ts, n + 1 =>
    have below : Tree.rowSize ts ≤ n := by
      rw [Tree.size] at fits
      omega
    obtain ⟨own₁, before⟩ : ∃ own₁, x.before (.node a ts) data own = own₁ := ⟨_, rfl⟩
    obtain ⟨given, choice⟩ : ∃ given, x.below (.node a ts) data own₁ = given := ⟨_, rfl⟩
    obtain ⟨results, own₂, row⟩ := traverse_row ts (given.getD data) n below
      (⟨.node a ts, data⟩ :: frames) own₁ (noted ++ [a])
    have children := (down_eq (Traversal.traverse x.visit n) given ⟨.node a ts, data⟩ frames
      (own₁, noted ++ [a])).trans row
    refine ⟨(x.after (.node a ts) data results own₂).1, (x.after (.node a ts) data results own₂).2,
      ?_⟩
    simp only [Traversal.traverse, Traversal.within, Traversal.push, visit, start, finish,
      Traversal.onOwn, Tree.label, bind, EStateM.bind, before, choice, children, Traversal.pop,
      List.tail_cons, Tree.preorder, List.append_assoc, List.singleton_append]

theorem traverse_row (ts : List (Tree α)) (data : δ) (n : Nat) (fits : Tree.rowSize ts ≤ n)
    (frames : List (Frame α δ)) (own : σ) (noted : List α) :
    ∃ results own', ts.mapM (fun t => Traversal.traverse x.visit n t data) ⟨frames, (own, noted)⟩ =
      .ok results ⟨frames, (own', noted ++ Tree.preorderOf ts)⟩ := by
  match ts with
  | [] => exact ⟨[], own, by rw [Tree.preorderOf, List.append_nil]; rfl⟩
  | t :: ts =>
    rw [Tree.rowSize] at fits
    obtain ⟨result, own₁, first⟩ := traverse_tree t data n (by omega) frames own noted
    obtain ⟨results, own₂, later⟩ :=
      traverse_row ts data n (by omega) frames own₁ (noted ++ t.preorder)
    refine ⟨result :: results, own₂, ?_⟩
    rw [List.mapM_cons]
    simp only [bind, EStateM.bind, first, later, pure, EStateM.pure, Tree.preorderOf,
      List.append_assoc]

end

end Descender

namespace Contextual

/-- A visitor inside a walk with contexts is called for all nodes in preorder. -/
theorem walkFrom_calls (s : Schema) (d : Document) (node : α → Node) (t : Tree α) (data : δ)
    (c₀ : Context) :
    ∃ calls : List (Call α δ), (calls.map fun call => call.tree.label) = t.preorder ∧
      ∀ (inner : Inner α δ σ) (act : Call α δ → σ → σ) (own : σ), Completes inner act →
        walkFrom s d node inner t data (.start ⟨c₀, own⟩) =
          .ok () (.start ⟨c₀, calls.foldl (fun own call => act call own) own⟩) := by
  refine ⟨callsFor s d node c₀ data (t.ways []), ?_,
    fun _ _ own completes => traverse_calls completes data [] t t.size (Nat.le_refl _) [] own⟩
  rw [← Tree.map_label_subtrees, ← Tree.map_snd_ways [] t, callsFor, List.map_map, List.map_map]
  rfl

end Contextual
end GraphQL
