import GraphQL.Proofs.Walk.Attachment
import GraphQL.Proofs.Walk.Moves
import Mathlib.Data.List.Forall2
import Mathlib.Data.List.Pairwise

/-! Shared walks: each visitor sees what it would see alone. Every sweep over the seats moves every
participant as its plan says, and what a participant sees is picked out of the common log by its
number. -/
namespace GraphQL

variable {α δ σ ε β γ : Type}

/-! ### One seat -/

namespace Choice

/-- What a walk needs to know of a choice. -/
def verdict : Choice δ → Verdict
  | skip => .skip
  | abort => .abort
  | _ => .visit

/-- A coordination after a visit. -/
def settled (data : δ) (above : List δ) : Choice δ → Coordination δ
  | skip => ⟨.initial, true, data :: above⟩
  | abort => ⟨.aborted, true, data :: above⟩
  | choice => ⟨.initial, true, choice.below data :: data :: above⟩

theorem finish_take (choice : Choice δ) (data : δ) (above : List δ) {c : Coordination δ}
    (taken : choice.take ⟨.undecided, true, data :: above⟩ = .ok () c) :
    Coordination.finishDispatch c = .ok choice.verdict (choice.settled data above) := by
  cases choice <;> cases taken <;> rfl

end Choice

/-- A seat shows where its participant stands. Between two sweeps, the coordination of a participant
in the walk is at rest, with the data on the way down; nothing is known of one that is gone. -/
def Participant.Sits (p : Participant α δ σ ε) (number : Nat) :
    Standing δ σ → Seat α δ σ (Nat × Event α δ) → Prop
  | .present own data above skippingBelow, s =>
    s = ⟨p.visitor.watched number, ⟨⟨.initial, true, data :: above⟩, own⟩, false, skippingBelow⟩
  | .gone own, s =>
    ∃ c below, s = ⟨p.visitor.watched number, ⟨c, own⟩, true, below⟩

namespace Participant.Sits

variable {p : Participant α δ σ ε} {number depth : Nat} {x : Standing δ σ}
  {s : Seat α δ σ (Nat × Event α δ)}

theorem aborted (h : p.Sits number x s) : s.aborted = x.isGone := by
  cases x with
  | present => obtain rfl : s = _ := h; rfl
  | gone own => obtain ⟨c, below, rfl⟩ := h; rfl

theorem own (h : p.Sits number x s) : s.performer.own = x.own := by
  cases x with
  | present => obtain rfl : s = _ := h; rfl
  | gone own => obtain ⟨c, below, rfl⟩ := h; rfl

theorem isListening (h : p.Sits number x s) : s.isListening = x.visiting?.isSome := by
  cases x with
  | present own data above skippingBelow =>
    obtain rfl : s = _ := h
    cases skippingBelow <;> rfl
  | gone own => obtain ⟨c, below, rfl⟩ := h; rfl

/-- A visit reports that the node is visited, and takes the decision of the plan. -/
theorem dispatch (p : Participant α δ σ ε) (number : Nat) (t : Tree α) (data : δ) (above : List δ)
    (own : σ) (reports : List (Nat × Event α δ)) :
    Seat.dispatch (p.visitor.watched number) t ⟨⟨⟨.initial, true, data :: above⟩, own⟩, reports⟩ =
      .ok (p.plan.visit t data own).1.verdict
        ⟨⟨(p.plan.visit t data own).1.settled data above, (p.plan.visit t data own).2⟩,
          reports ++ [(number, .visit t data)]⟩ := by
  obtain ⟨c, dropped, taken, visited⟩ := p.follows.visit t data own
    ⟨.undecided, true, data :: above⟩ [] rfl (List.cons_ne_nil data above)
  have watched : (p.visitor.watched number).visit t data
      ⟨⟨⟨.undecided, true, data :: above⟩, own⟩, reports⟩ =
        .ok () ⟨⟨c, (p.plan.visit t data own).2⟩, reports ++ [(number, .visit t data)]⟩ := by
    show VisitM.silently (p.visitor.visit t data) ⟨_, reports ++ [(number, .visit t data)]⟩ = _
    simp only [VisitM.silently, visited]
  show (do
    (p.visitor.watched number).visit t data
    VisitM.coordinate Coordination.finishDispatch : VisitM δ σ _ Verdict)
      ⟨⟨⟨.undecided, true, data :: above⟩, own⟩, reports⟩ = _
  simp only [bind, EStateM.bind, watched, VisitM.coordinate, Choice.finish_take _ _ _ taken]

/-- A return reports that the node is left, with the data it was visited with. -/
theorem comeBack (p : Participant α δ σ ε) (number : Nat) (t : Tree α) (data data' : δ)
    (above : List δ) (own : σ) (reports : List (Nat × Event α δ)) :
    Seat.comeBack (p.visitor.watched number) t
        ⟨⟨⟨.initial, true, data' :: data :: above⟩, own⟩, reports⟩ =
      .ok () ⟨⟨⟨.initial, true, data :: above⟩, p.plan.leave t data own⟩,
        reports ++ [(number, .leave t data)]⟩ := by
  obtain ⟨dropped, left⟩ := p.follows.leave t data own ⟨.initial, true, data :: above⟩ [] rfl
  show VisitM.silently (p.visitor.leave t data)
    ⟨⟨⟨.initial, true, data :: above⟩, own⟩, reports ++ [(number, .leave t data)]⟩ = _
  simp only [VisitM.silently, left]

/-- At a node, a seat moves as the plan says. -/
theorem enter (t : Tree α) (depth : Nat) (h : p.Sits number x s) :
    ∃ s', s.enter t depth = (s', (p.plan.enter t depth x).2.map (number, ·), .ok ()) ∧
      p.Sits number (p.plan.enter t depth x).1 s' := by
  rcases x with ⟨own, data, above, _ | d⟩ | own
  · obtain rfl : s = _ := h
    have performed := dispatch p number t data above own []
    rcases hv : p.plan.visit t data own with ⟨choice, own'⟩
    rw [hv] at performed
    cases choice <;>
      simp [Seat.enter, Seat.isListening, Seat.perform, performed, Plan.enter, hv,
        Choice.verdict, Choice.settled, Choice.below, Sits]
  · obtain rfl : s = _ := h
    exact ⟨_, rfl, rfl⟩
  · obtain ⟨c, below, rfl⟩ := h
    exact ⟨_, rfl, c, below, rfl⟩

/-- On the way back, a seat moves as the plan says, too. -/
theorem leave (t : Tree α) (depth : Nat) (below : x.Below) (h : p.Sits number x s) :
    ∃ s', s.leave t depth = (s', (p.plan.comeBack t depth x).2.map (number, ·), .ok ()) ∧
      p.Sits number (p.plan.comeBack t depth x).1 s' := by
  rcases x with ⟨own, data, _ | ⟨data', above⟩, _ | d⟩ | own
  · exact absurd rfl below
  · obtain rfl : s = _ := h
    by_cases here : d = depth <;> simp [Seat.leave, Plan.comeBack, here, Sits]
  · obtain rfl : s = _ := h
    have performed := comeBack p number t data' data above own []
    simp [Seat.leave, Seat.perform, performed, Plan.comeBack, Sits]
  · obtain rfl : s = _ := h
    by_cases here : d = depth <;> simp [Seat.leave, Plan.comeBack, here, Sits]
  · obtain ⟨c, below, rfl⟩ := h
    exact ⟨_, rfl, c, below, rfl⟩

end Participant.Sits

/-! ### The common log -/

/-- What the visitor of a number sees, out of a common log. -/
def seenBy (number : Nat) (log : List (Nat × Event α δ)) : List (Event α δ) :=
  log.filterMap fun (n, event) => if n = number then some event else none

theorem seenBy_append (number : Nat) (log log' : List (Nat × Event α δ)) :
    seenBy number (log ++ log') = seenBy number log ++ seenBy number log' :=
  List.filterMap_append

theorem seenBy_own (number : Nat) (events : List (Event α δ)) :
    seenBy number (events.map (number, ·)) = events := by
  simp [seenBy]

theorem seenBy_other {number other : Nat} (h : other ≠ number) (events : List (Event α δ)) :
    seenBy number (events.map (other, ·)) = [] := by
  simp [seenBy, h]

/-- What is reported by many under numbers of their own is picked out by these numbers. -/
theorem seenBy_flatMap {ι : Type} (number : ι → Nat) (events : ι → List (Event α δ)) {es : List ι}
    (distinct : (es.map number).Nodup) {e : ι} (he : e ∈ es) :
    seenBy (number e) (es.flatMap fun e => (events e).map (number e, ·)) = events e := by
  induction es with
  | nil => simp at he
  | cons first es ih =>
    rw [List.map_cons, List.nodup_cons] at distinct
    rw [List.flatMap_cons, seenBy_append]
    rcases List.mem_cons.1 he with rfl | he
    · have others : seenBy (number e) (es.flatMap fun e => (events e).map (number e, ·)) = [] := by
        simp only [seenBy, List.filterMap_flatMap, List.flatMap_eq_nil_iff]
        intro other hother
        refine seenBy_other (fun same => distinct.1 ?_) _
        exact same ▸ List.mem_map_of_mem hother
      rw [seenBy_own, others, List.append_nil]
    · have other : number first ≠ number e := fun same =>
        distinct.1 (same ▸ List.mem_map_of_mem he)
      rw [seenBy_other other, ih distinct.2 he, List.nil_append]

/-- A sweep over the visitors at a node: before its children or after them, and who takes part, with
the data for it. -/
structure Round (α δ : Type) where
  tree : Tree α
  entering : Bool
  present : List (Nat × δ)

namespace Round

/-- What the visitors see in a round, in the order of the round. -/
def events (r : Round α δ) : List (Nat × Event α δ) :=
  r.present.map fun (number, data) =>
    (number, if r.entering then .visit r.tree data else .leave r.tree data)

/-- The node that is visited in a round, if it is a round of visits. -/
def visited? (r : Round α δ) : Option (Tree α) := if r.entering then some r.tree else none

/-- Nobody takes part twice, and the visitors keep their order. -/
def Ordered (r : Round α δ) : Prop := (r.present.map Prod.fst).Pairwise (· < ·)

end Round

/-! ### All seats -/

/-- A participant and its number in a walk. -/
abbrev Entrant (α δ σ ε : Type) := Participant α δ σ ε × Nat

/-- The seats of a walk show where the participants stand. -/
abbrev Shown (es : List (Entrant α δ σ ε)) (x : Entrant α δ σ ε → Standing δ σ)
    (seats : List (Seat α δ σ (Nat × Event α δ))) : Prop :=
  List.Forall₂ (fun e s => e.1.Sits e.2 (x e) s) es seats

/-- The rounds account for the moves of all participants: everybody sees in them what it sees in its
own move, nobody is visited out of order, and the nodes come in the order given. -/
structure Accounts (es : List (Entrant α δ σ ε)) (x : Entrant α δ σ ε → Standing δ σ)
    (move : Entrant α δ σ ε → Move α δ σ) (nodes : List (Tree α)) (rounds : List (Round α δ)) :
    Prop where
  ordered : ∀ r ∈ rounds, r.Ordered
  visited : (rounds.filterMap Round.visited?).Sublist nodes
  seen : ∀ e ∈ es, seenBy e.2 (rounds.flatMap Round.events) = (move e (x e)).2

/-- An action on a stage carries out the moves of all participants, and has a result. -/
def CarriesOut (es : List (Entrant α δ σ ε)) (act : StageM α δ σ (Nat × Event α δ) β) (result : β)
    (x : Entrant α δ σ ε → Standing δ σ) (move : Entrant α δ σ ε → Move α δ σ)
    (nodes : List (Tree α)) : Prop :=
  ∀ seats log, Shown es x seats → ∃ seats' rounds,
    act ⟨seats, log⟩ = .ok result ⟨seats', log ++ rounds.flatMap Round.events⟩ ∧
      Shown es (fun e => (move e (x e)).1) seats' ∧ Accounts es x move nodes rounds

section

variable {es : List (Entrant α δ σ ε)} {x : Entrant α δ σ ε → Standing δ σ}
  {seats : List (Seat α δ σ (Nat × Event α δ))} {f g : Entrant α δ σ ε → Move α δ σ}
  {act : StageM α δ σ (Nat × Event α δ) β} {result : β} {nodes nodes' : List (Tree α)}

/-- What a seat shows of its participant, the seats show of all. -/
theorem Shown.map_eq {shows : Seat α δ σ (Nat × Event α δ) → β} (stands : Standing δ σ → β)
    (agree : ∀ (e : Entrant α δ σ ε) s, e.1.Sits e.2 (x e) s → shows s = stands (x e))
    (h : Shown es x seats) : seats.map shows = es.map fun e => stands (x e) := by
  induction h with
  | nil => rfl
  | cons first _ ih => rw [List.map_cons, List.map_cons, agree _ _ first, ih]

theorem Shown.all_aborted (h : Shown es x seats) :
    seats.all (·.aborted) = es.all fun e => (x e).isGone := by
  have flags := h.map_eq Standing.isGone fun e s => Participant.Sits.aborted
  simpa [List.all_map] using congrArg (List.all · id) flags

theorem Shown.any_listening (h : Shown es x seats) :
    seats.any (·.isListening) = es.any fun e => (x e).visiting?.isSome := by
  have flags := h.map_eq (·.visiting?.isSome) fun e s => Participant.Sits.isListening
  simpa [List.any_map] using congrArg (List.any · id) flags

theorem Shown.congr {y : Entrant α δ σ ε → Standing δ σ} (same : ∀ e ∈ es, x e = y e)
    (h : Shown es x seats) : Shown es y seats := by
  induction h with
  | nil => exact .nil
  | cons first _ ih =>
    exact .cons (same _ List.mem_cons_self ▸ first) (ih fun e he => same e (List.mem_cons_of_mem _ he))

/-- A sweep takes every seat on by one step. -/
theorem Shown.sweep {step : Seat α δ σ (Nat × Event α δ) →
      Seat α δ σ (Nat × Event α δ) × List (Nat × Event α δ) × Except Interruption Unit}
    (moves : ∀ e s, e.1.Sits e.2 (x e) s →
      ∃ s', step s = (s', (f e (x e)).2.map (e.2, ·), .ok ()) ∧ e.1.Sits e.2 (f e (x e)).1 s')
    (h : Shown es x seats) :
    ∃ seats', Seat.sweep step seats =
        (seats', es.flatMap fun e => (f e (x e)).2.map (e.2, ·), .ok ()) ∧
      Shown es (fun e => (f e (x e)).1) seats' := by
  induction h with
  | nil => exact ⟨[], rfl, .nil⟩
  | cons first _ ih =>
    obtain ⟨s', stepped, sits⟩ := moves _ _ first
    obtain ⟨seats', swept, shown⟩ := ih
    exact ⟨s' :: seats', by simp only [Seat.sweep, stepped, swept, List.flatMap_cons],
      .cons sits shown⟩

theorem all_isGone_of_stay (stay : ∀ e ∈ es, f e (x e) = (x e, [])) :
    (es.all fun e => (f e (x e)).1.isGone) = es.all fun e => (x e).isGone := by
  rw [Bool.eq_iff_iff, List.all_eq_true, List.all_eq_true]
  exact forall₂_congr fun e he => by rw [stay e he]

namespace CarriesOut

theorem congr (same : ∀ e ∈ es, f e (x e) = g e (x e)) (h : CarriesOut es act result x f nodes) :
    CarriesOut es act result x g nodes := by
  intro seats log shown
  obtain ⟨seats', rounds, acted, shown', accounts⟩ := h seats log shown
  refine ⟨seats', rounds, acted, shown'.congr fun e he => by rw [same e he], accounts.ordered,
    accounts.visited, fun e he => ?_⟩
  rw [accounts.seen e he, same e he]

/-- Where everybody stays, there is nothing to do. -/
theorem idle (stay : ∀ e ∈ es, f e (x e) = (x e, [])) :
    CarriesOut es (pure result) result x f nodes := by
  refine CarriesOut.congr (f := fun _ x => (x, [])) (fun e he => (stay e he).symm) ?_
  intro seats log shown
  exact ⟨seats, [], by simp [pure, EStateM.pure], shown, by simp, List.nil_sublist nodes,
    fun _ _ => rfl⟩

/-- Where everybody has given up, there is nothing to do but to say so. -/
theorem idle_of_gone (gone : (es.all fun e => (x e).isGone) = true)
    (stay : ∀ e, (x e).isGone → f e (x e) = (x e, [])) :
    CarriesOut es (pure true) (es.all fun e => (f e (x e)).1.isGone) x f nodes := by
  have stay' : ∀ e ∈ es, f e (x e) = (x e, []) := fun e he =>
    stay e (List.all_eq_true.1 gone e he)
  rw [all_isGone_of_stay stay', gone]
  exact idle stay'

theorem andReturn {later : β → StageM α δ σ (Nat × Event α δ) γ} {result' : γ}
    (h : CarriesOut es act result x f nodes) (returns : later result = pure result') :
    CarriesOut es (act >>= later) result' x f nodes := by
  intro seats log shown
  obtain ⟨seats', rounds, acted, rest⟩ := h seats log shown
  exact ⟨seats', rounds, by simp only [Bind.bind, EStateM.bind, acted, returns]; rfl, rest⟩

/-- Moves in a row are carried out in a row. -/
theorem bind {later : β → StageM α δ σ (Nat × Event α δ) γ} {result' : γ}
    (first : CarriesOut es act result x f nodes)
    (second : CarriesOut es (later result) result' (fun e => (f e (x e)).1) g nodes') :
    CarriesOut es (act >>= later) result' x (fun e => (f e).andThen (g e)) (nodes ++ nodes') := by
  intro seats log shown
  obtain ⟨seats', rounds, acted, shown', accounts⟩ := first seats log shown
  obtain ⟨seats'', rounds', acted', shown'', accounts'⟩ :=
    second seats' (log ++ rounds.flatMap Round.events) shown'
  refine ⟨seats'', rounds ++ rounds', ?_, shown'', ?_, ?_, fun e he => ?_⟩
  · simp only [Bind.bind, EStateM.bind, acted, acted', List.flatMap_append, List.append_assoc]
  · intro r hr
    exact (List.mem_append.1 hr).elim (accounts.ordered r) (accounts'.ordered r)
  · rw [List.filterMap_append]
    exact accounts.visited.append accounts'.visited
  · rw [List.flatMap_append, seenBy_append, accounts.seen e he, accounts'.seen e he]
    rfl

/-- What depends on the stage depends on where the participants stand. -/
theorem ofGet {asks : Stage α δ σ (Nat × Event α δ) → Bool} (answer : Bool)
    {yes no : StageM α δ σ (Nat × Event α δ) β}
    (answers : ∀ seats log, Shown es x seats → asks ⟨seats, log⟩ = answer)
    (h : CarriesOut es (if answer then yes else no) result x f nodes) :
    CarriesOut es (do if asks (← get) then yes else no) result x f nodes := by
  intro seats log shown
  obtain ⟨seats', rounds, acted, rest⟩ := h seats log shown
  refine ⟨seats', rounds, ?_, rest⟩
  rw [← acted, ← answers seats log shown]
  rfl

/-- A sweep at a node is one round, in which everybody with data for it takes part. -/
theorem sweep (numbered : (es.map Prod.snd).Pairwise (· < ·)) (t : Tree α) (entering : Bool)
    {step : Seat α δ σ (Nat × Event α δ) →
      Seat α δ σ (Nat × Event α δ) × List (Nat × Event α δ) × Except Interruption Unit}
    (data? : Standing δ σ → Option δ)
    (moves : ∀ e s, e.1.Sits e.2 (x e) s →
      ∃ s', step s = (s', (f e (x e)).2.map (e.2, ·), .ok ()) ∧ e.1.Sits e.2 (f e (x e)).1 s')
    (sees : ∀ e, (f e (x e)).2 =
      (data? (x e)).toList.map fun data => if entering then .visit t data else .leave t data) :
    CarriesOut es (Stage.sweep step) () x f (if entering then [t] else []) := by
  intro seats log shown
  obtain ⟨seats', swept, shown'⟩ := shown.sweep moves
  let round : Round α δ := ⟨t, entering, es.filterMap fun e => (data? (x e)).map (e.2, ·)⟩
  have events : round.events = es.flatMap fun e => (f e (x e)).2.map (e.2, ·) := by
    simp only [Round.events, round, sees, List.filterMap_eq_flatMap_toList, List.map_flatMap]
    congr 1
    funext e
    cases data? (x e) <;> rfl
  refine ⟨seats', [round], ?_, shown', ?_, ?_, fun e he => ?_⟩
  · simp only [Stage.sweep, swept, List.flatMap_singleton, events]
  · simp only [List.mem_singleton, forall_eq, Round.Ordered, round, List.pairwise_map]
    refine (List.pairwise_map.1 numbered).filterMap _ fun e e' before b hb b' hb' => ?_
    obtain ⟨data, -, rfl⟩ := Option.map_eq_some_iff.1 hb
    obtain ⟨data', -, rfl⟩ := Option.map_eq_some_iff.1 hb'
    exact before
  · cases entering <;> simp [Round.visited?, round]
  · rw [List.flatMap_singleton, events]
    exact seenBy_flatMap Prod.snd (fun e => (f e (x e)).2) (numbered.imp Nat.ne_of_lt) he

end CarriesOut

end

/-! ### Walks -/

section

variable {es : List (Entrant α δ σ ε)}

mutual

/-- A shared walk over a tree carries out the walks alone. -/
theorem walkTree_carriesOut (numbered : (es.map Prod.snd).Pairwise (· < ·)) (t : Tree α)
    (depth : Nat) (x : Entrant α δ σ ε → Standing δ σ) (above : ∀ e, (x e).Above depth) :
    CarriesOut es (Stage.walkTree depth t)
      (es.all fun e => (Plan.across (e.1.plan.walkTree t) (x e)).1.isGone) x
      (fun e => Plan.across (e.1.plan.walkTree t)) t.subtrees := by
  match t with
  | .node a ts =>
    refine CarriesOut.congr
      (f := fun e => (e.1.plan.enter (.node a ts) depth).andThen
        ((Plan.across (e.1.plan.walkRow ts)).andThen (e.1.plan.comeBack (.node a ts) depth)))
      (fun e _ => (Plan.across_tree a ts (above e)).symm) ?_
    simp only [Plan.across_tree a ts (above _)]
    have entered : CarriesOut es (Stage.sweep (Seat.enter (.node a ts) depth)) () x
        (fun e => e.1.plan.enter (.node a ts) depth) [.node a ts] :=
      .sweep numbered (.node a ts) true Standing.visiting? (fun e s h => h.enter _ _)
        fun e => Plan.enter_log
    refine entered.bind (CarriesOut.ofGet _ (fun seats log shown => shown.all_aborted) ?_)
    split
    -- Once everybody has given up, nobody moves any more.
    next gone => exact CarriesOut.idle_of_gone gone fun e h => Plan.after_of_isGone h
    next remain =>
      have row := walkRow_carriesOut numbered ts (depth + 1) _
        (fun e => Plan.enter_above (above e)) (Bool.eq_false_iff.2 remain)
      rw [← List.append_nil (Tree.subtreesOf ts)]
      refine row.bind ?_
      split
      next gone => exact CarriesOut.idle_of_gone gone fun e h => Plan.comeBack_of_isGone h
      next remain =>
        have result := Bool.eq_false_iff.2 remain
        simp only [Move.andThen, Plan.comeBack_isGone, result]
        exact (CarriesOut.sweep numbered (.node a ts) false Standing.leaving?
          (fun e s h => h.leave _ _ (Plan.across_below Plan.enter_below))
          fun e => Plan.comeBack_log).andReturn rfl

theorem walkRow_carriesOut (numbered : (es.map Prod.snd).Pairwise (· < ·)) (ts : List (Tree α))
    (depth : Nat) (x : Entrant α δ σ ε → Standing δ σ) (above : ∀ e, (x e).Above depth)
    (remain : (es.all fun e => (x e).isGone) = false) :
    CarriesOut es (Stage.walkRow depth ts)
      (es.all fun e => (Plan.across (e.1.plan.walkRow ts) (x e)).1.isGone) x
      (fun e => Plan.across (e.1.plan.walkRow ts)) (Tree.subtreesOf ts) := by
  match ts with
  | [] =>
    simp only [Plan.across_row_nil, remain]
    exact CarriesOut.idle fun e _ => Plan.across_row_nil
  | t :: ts =>
    refine CarriesOut.congr
      (f := fun e => (Plan.across (e.1.plan.walkTree t)).andThen (Plan.across (e.1.plan.walkRow ts)))
      (fun e _ => (Plan.across_row_cons t ts).symm) ?_
    simp only [Plan.across_row_cons t ts]
    refine CarriesOut.ofGet _ (fun seats log shown => shown.any_listening) ?_
    split
    next listening =>
      refine (walkTree_carriesOut numbered t depth x above).bind ?_
      split
      next gone =>
        exact CarriesOut.idle_of_gone gone fun e h =>
          Plan.across_of_not_visiting (Standing.visiting?_of_isGone h)
      next remain =>
        exact walkRow_carriesOut numbered ts depth _ (fun e => Plan.across_above (above e))
          (Bool.eq_false_iff.2 remain)
    next nobody =>
      -- Nobody moves over the tree that is passed by.
      have stay : ∀ e ∈ es, Plan.across (e.1.plan.walkTree t) (x e) = (x e, []) := by
        intro e he
        refine Plan.across_of_not_visiting ?_
        simpa using List.any_eq_false.1 (Bool.eq_false_iff.2 nobody) e he
      have remain' : (es.all fun e => (Plan.across (e.1.plan.walkTree t) (x e)).1.isGone) = false := by
        rw [all_isGone_of_stay stay, remain]
      show CarriesOut es (pure () >>= fun _ => Stage.walkRow depth ts) _ x _ _
      exact CarriesOut.bind (CarriesOut.idle stay)
        (walkRow_carriesOut numbered ts depth _ (fun e => Plan.across_above (above e)) remain')

end

/-- A walk of seats that have joined does, too. It is aborted if every visitor gives up. -/
theorem walkAttached_carriesOut (numbered : (es.map Prod.snd).Pairwise (· < ·)) (t : Tree α)
    (x : Entrant α δ σ ε → Standing δ σ) (above : ∀ e, (x e).Above 0) :
    CarriesOut es (Stage.walkAttached t)
      (if !es.isEmpty && es.all fun e => (Plan.across (e.1.plan.walkTree t) (x e)).1.isGone then
        .aborted else .completed) x
      (fun e => Plan.across (e.1.plan.walkTree t)) t.subtrees := by
  refine CarriesOut.ofGet es.isEmpty (fun seats log shown => ?_) ?_
  · cases shown <;> rfl
  cases es with
  | nil => exact CarriesOut.idle (by simp)
  | cons e es =>
    refine (walkTree_carriesOut numbered t 0 x above).andReturn ?_
    split
    next gone => simp only [gone]; rfl
    next remain => simp only [Bool.eq_false_iff.2 remain]; rfl

end

namespace Participant

/-- Where a participant stands when it has joined a walk. -/
def start (p : Participant α δ σ ε) : Standing δ σ := .present p.own p.data [] none

theorem isGone_across_start (p : Participant α δ σ ε) (t : Tree α) :
    (Plan.across (p.plan.walkTree t) p.start).1.isGone = (p.alone t).aborted := by
  cases h : (p.plan.walkTree t p.data p.own).aborted <;>
    simp [start, alone, Plan.across, h, Standing.isGone]

theorem own_across_start (p : Participant α δ σ ε) (t : Tree α) :
    (Plan.across (p.plan.walkTree t) p.start).1.own = (p.alone t).own := by
  cases h : (p.plan.walkTree t p.data p.own).aborted <;>
    simp [start, alone, Plan.across, h, Standing.own]

theorem attach_seat (p : Participant α δ σ ε) (number : Nat) :
    ∃ s, (p.seat number).attach = .ok s ∧ p.Sits number p.start s := by
  refine ⟨_, ?_, rfl⟩
  simp [seat, Seat.attach, Coordination.attach_of_free p.free, p.bottom]

/-- Participants that are free all join a walk. -/
theorem attachAll_seat (es : List (Entrant α δ σ ε)) :
    ∃ seats, Seat.attachAll (es.map fun e => e.1.seat e.2) = (seats, .ok ()) ∧
      Shown es (fun e => e.1.start) seats := by
  induction es with
  | nil => exact ⟨[], rfl, .nil⟩
  | cons e es ih =>
    obtain ⟨s, joined, sits⟩ := e.1.attach_seat e.2
    obtain ⟨seats, others, shown⟩ := ih
    exact ⟨s :: seats, by simp only [List.map_cons, Seat.attachAll, joined, others], .cons sits shown⟩

end Participant

/-- Parallel visitors do not interfere. Each sees in a shared walk, in order, just what it would see
alone, and ends in the state of its own that it would end in alone; the walk is aborted if all of
them would give up. The visits go from node to node in preorder, one round for a node, and in every
round the visitors come in the order they were added in. -/
theorem walk_independent (t : Tree α) (parts : List (Participant α δ σ ε)) :
    ∃ (seats : List (Seat α δ σ (Nat × Event α δ))) (rounds : List (Round α δ)),
      walk t (parts.zipIdx.map fun (p, number) => p.seat number) =
        (seats, rounds.flatMap Round.events,
          .ok (if !parts.isEmpty && parts.all fun p => (p.alone t).aborted then .aborted
            else .completed)) ∧
      ((List.range parts.length).map fun number => seenBy number (rounds.flatMap Round.events)) =
        (parts.map fun p => (p.alone t).log) ∧
      (seats.map fun s => s.performer.own) = (parts.map fun p => (p.alone t).own) ∧
      (∀ r ∈ rounds, r.Ordered) ∧ (rounds.filterMap Round.visited?).Sublist t.subtrees := by
  have numbered : (parts.zipIdx.map Prod.snd).Pairwise (· < ·) := by
    rw [List.zipIdx_map_snd]
    exact List.pairwise_lt_range' 1
  obtain ⟨seats, joined, shown⟩ := Participant.attachAll_seat parts.zipIdx
  obtain ⟨seats', rounds, walked, shown', accounts⟩ :=
    walkAttached_carriesOut numbered t (fun e => e.1.start) (fun _ => trivial) seats [] shown
  -- What holds of the participants with their numbers, said of the participants.
  have unnumbered {β : Type} (f : Participant α δ σ ε → β) :
      parts.zipIdx.map (fun e => f e.1) = parts.map f := by
    rw [← List.zipIdx_map_fst 0 parts, List.map_map, List.zipIdx_map_fst]
    rfl
  refine ⟨seats'.map (·.detach), rounds, ?_, ?_, ?_, accounts.ordered, accounts.visited⟩
  · have ending : (!parts.zipIdx.isEmpty && parts.zipIdx.all fun e =>
          (Plan.across (e.1.plan.walkTree t) e.1.start).1.isGone) =
        (!parts.isEmpty && parts.all fun p => (p.alone t).aborted) := by
      conv_rhs => rw [← List.zipIdx_map_fst 0 parts, List.isEmpty_map, List.all_map]
      simp only [Participant.isGone_across_start, Function.comp_def]
    simp only [walk, joined, walked, ending, List.nil_append]
  · rw [List.range_eq_range', ← List.zipIdx_map_snd, List.map_map, ← unnumbered]
    exact List.map_congr_left accounts.seen
  · rw [← unnumbered, List.map_map]
    simp only [← Participant.own_across_start]
    exact shown'.map_eq Standing.own fun e s => Participant.Sits.own

/-! A visitor that counts its visits and decides by the label of the node and by the data. -/

namespace Choice

theorem take_ok (choice : Choice δ) {c : Coordination δ} (undecided : c.state = .undecided)
    (data : c.data ≠ []) : ∃ c', choice.take c = .ok () c' := by
  obtain ⟨state, attached, _ | ⟨first, rest⟩⟩ := c
  · exact absurd rfl data
  · cases undecided
    cases choice <;> exact ⟨_, rfl⟩

end Choice

/-- The visitor, and how it joins a walk with the data 0. -/
def counting (choose : Nat → Nat → Choice Nat) : Participant Nat Nat Nat Unit where
  visitor.visit t data := do
    VisitM.onOwn (modify (· + 1))
    VisitM.coordinate (choose t.label data).take
  visitor.leave _ _ := pure ()
  plan.visit t data own := (choose t.label data, own + 1)
  plan.leave _ _ own := own
  follows.visit t data own c reports undecided ne := by
    obtain ⟨c', taken⟩ := (choose t.label data).take_ok undecided ne
    refine ⟨c', reports, taken, ?_⟩
    show VisitM.coordinate (choose t.label data).take ⟨⟨c, own + 1⟩, reports⟩ = _
    simp only [VisitM.coordinate, taken]
  follows.leave _ _ _ _ reports _ := ⟨reports, rfl⟩
  own := 0
  data := 0
  coordination := .new 0
  aborted := false
  skippingBelow := none
  free := rfl
  bottom := rfl

/-- Whether a node is visited or left, its label, and the data. -/
def Event.brief : Event Nat Nat → Bool × Nat × Nat
  | .visit t data => (true, t.label, data)
  | .leave t data => (false, t.label, data)

/-- One visitor counts depths, one skips what is below 1, and one gives up at 3. -/
theorem walk_independent_three :
    let t : Tree Nat := .node 0 [.node 1 [.leaf 2, .leaf 3], .leaf 4]
    let parts := [counting fun _ depth => .visitWith (depth + 1),
      counting fun label _ => if label = 1 then .skip else .undecided,
      counting fun label _ => if label = 3 then .abort else .visit]
    ∃ seats log,
      walk t (parts.zipIdx.map fun (p, number) => p.seat number) = (seats, log, .ok .completed) ∧
      (seats.map fun s => s.performer.own) = [5, 3, 4] ∧
      ((List.range 3).map fun number => (seenBy number log).map Event.brief) =
        [[(true, 0, 0), (true, 1, 1), (true, 2, 2), (false, 2, 2), (true, 3, 2), (false, 3, 2),
            (false, 1, 1), (true, 4, 1), (false, 4, 1), (false, 0, 0)],
          [(true, 0, 0), (true, 1, 0), (true, 4, 0), (false, 4, 0), (false, 0, 0)],
          [(true, 0, 0), (true, 1, 0), (true, 2, 0), (false, 2, 0), (true, 3, 0)]] := by
  intro t parts
  obtain ⟨seats, rounds, walked, seen, owns, -⟩ := walk_independent t parts
  refine ⟨seats, _, walked, owns, ?_⟩
  have briefly := congrArg (List.map (List.map Event.brief)) seen
  rw [List.map_map] at briefly
  exact briefly

end GraphQL
