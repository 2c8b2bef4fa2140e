import GraphQL.Proofs.Walk.Attachment
import Mathlib.Data.List.Forall2

/-! Stages in a walk. Whatever sweeps keep of a stage, a walk over a tree keeps, up to the node
where it breaks off. -/
namespace GraphQL

variable {ι α δ σ ε β γ : Type}

theorem forall₂_mono {R R' : β → γ → Prop} {bs : List β} {cs : List γ} (h : List.Forall₂ R bs cs)
    (weaker : ∀ b ∈ bs, ∀ c ∈ cs, R b c → R' b c) : List.Forall₂ R' bs cs := by
  refine List.forall₂_iff_zip.2 ⟨h.length_eq, fun {b c} zipped => ?_⟩
  obtain ⟨hb, hc⟩ := List.of_mem_zip zipped
  exact weaker b hb c hc (List.forall₂_zip h zipped)

/-! ### Flags -/

namespace Seat

theorem leave_aborted (t : Tree α) (depth : Nat) (s : Seat α δ σ ε) :
    (s.leave t depth).1.aborted = s.aborted := by
  obtain ⟨visitor, performer, aborted, skippingBelow⟩ := s
  cases aborted with
  | true => rfl
  | false =>
    cases skippingBelow with
    | none =>
      simp only [leave, perform, Bool.false_eq_true, if_false]
      split <;> rfl
    | some d => simp only [leave, Bool.false_eq_true, if_false]; split <;> rfl

/-- What a step keeps of one seat a sweep keeps of all. -/
theorem sweep_map {step : Step α δ σ ε} (f : Seat α δ σ ε → β)
    (keeps : ∀ s, f (step s).1 = f s) (seats : List (Seat α δ σ ε)) :
    (sweep step seats).1.map f = seats.map f := by
  induction seats with
  | nil => rfl
  | cons s seats ih =>
    have first := keeps s
    rw [sweep]
    split
    next s' reports e stepped => rw [List.map_cons, List.map_cons, ← first, stepped]
    next s' reports u stepped => rw [List.map_cons, List.map_cons, ih, ← first, stepped]

end Seat

namespace Stage

/-- Who has given up has done so before it leaves. -/
theorem sweep_leave_aborted {t : Tree α} {depth : Nat} {st st' : Stage α δ σ ε}
    (swept : sweep (Seat.leave t depth) st = .ok () st') :
    (st'.seats.all (·.aborted)) = st.seats.all (·.aborted) := by
  have flags := Seat.sweep_map (·.aborted) (Seat.leave_aborted t depth) st.seats
  rcases hs : Seat.sweep (Seat.leave t depth) st.seats with ⟨seats, reports, _ | _⟩
  · simp [sweep, hs] at swept
  · simp only [sweep, hs, EStateM.Result.ok.injEq, true_and] at swept
    rw [hs] at flags
    simpa [← swept, List.all_map, Function.comp_def] using congrArg (List.all · id) flags

theorem bind_ok {act : StageM α δ σ ε β} {next : β → StageM α δ σ ε γ} {st st' : Stage α δ σ ε}
    {c : γ} : (act >>= next) st = .ok c st' ↔
      ∃ b st₁, act st = .ok b st₁ ∧ next b st₁ = .ok c st' := by
  simp only [bind, EStateM.bind]
  cases act st <;> simp

theorem get_bind {next : Stage α δ σ ε → StageM α δ σ ε γ} {st : Stage α δ σ ε} :
    (get >>= next) st = next st st := rfl

mutual

/-- A walk over a tree tells whether all have given up. -/
theorem walkTree_gone {depth : Nat} {t : Tree α} {st st' : Stage α δ σ ε} {gone : Bool}
    (walked : walkTree depth t st = .ok gone st') : gone = st'.seats.all (·.aborted) := by
  match t with
  | .node a ts =>
    simp only [walkTree, bind_ok, get_bind] at walked
    obtain ⟨_, st₁, -, walked⟩ := walked
    split at walked
    next all => cases walked; exact all.symm
    next some =>
      obtain ⟨gone', st₂, row, walked⟩ := bind_ok.1 walked
      have below := walkRow_gone (Bool.eq_false_iff.2 some) row
      split at walked
      next gone'' => cases walked; exact gone''.symm.trans below
      next remain =>
        obtain ⟨_, st₃, left, walked⟩ := bind_ok.1 walked
        cases walked
        rw [sweep_leave_aborted left, ← below]
        exact (Bool.eq_false_iff.2 remain).symm

theorem walkRow_gone {depth : Nat} {ts : List (Tree α)} {st st' : Stage α δ σ ε} {gone : Bool}
    (some : (st.seats.all (·.aborted)) = false) (walked : walkRow depth ts st = .ok gone st') :
    gone = st'.seats.all (·.aborted) := by
  match ts with
  | [] => cases walked; exact some.symm
  | t :: ts =>
    simp only [walkRow, get_bind] at walked
    split at walked
    next listening =>
      obtain ⟨gone', st₁, first, walked⟩ := bind_ok.1 walked
      have below := walkTree_gone first
      split at walked
      next gone'' => cases walked; exact gone''.symm.trans below
      next remain => exact walkRow_gone (below.symm.trans (Bool.eq_false_iff.2 remain)) walked
    next => exact walkRow_gone some walked

end

end Stage

/-! ### What a walk keeps -/

/-- A part of a walk leaves a stage in good order, or it breaks off. -/
def Leaves (good : Stage α δ σ ε → Prop) (broken : Interruption → Stage α δ σ ε → Prop) :
    EStateM.Result Interruption (Stage α δ σ ε) β → Prop
  | .ok _ st => good st
  | .error e st => broken e st

theorem Leaves.bind {between good : Stage α δ σ ε → Prop}
    {broken : Interruption → Stage α δ σ ε → Prop} {act : StageM α δ σ ε β}
    {next : β → StageM α δ σ ε γ} {st : Stage α δ σ ε} (first : Leaves between broken (act st))
    (others : ∀ b st', act st = .ok b st' → between st' → Leaves good broken (next b st')) :
    Leaves good broken ((act >>= next) st) := by
  simp only [Bind.bind, EStateM.bind]
  cases acted : act st with
  | ok b st' =>
    rw [acted] at first
    exact others b st' acted first
  | error e st' =>
    rw [acted] at first
    exact first

/-- What is true of a stage at rest below the nodes of a path, the newest first, and where a walk
breaks off. When all visitors have given up, it does not matter below which path they are. -/
structure Upkeep (α δ σ ε : Type) where
  rest : List (Tree α) → Stage α δ σ ε → Prop
  broken : Interruption → Stage α δ σ ε → Prop
  enter : ∀ path st t, rest path st →
    Leaves (rest (t :: path)) broken (Stage.sweep (Seat.enter t path.length) st)
  leave : ∀ path st t, rest (t :: path) st →
    Leaves (rest path) broken (Stage.sweep (Seat.leave t path.length) st)
  gone : ∀ path path' st, (st.seats.all (·.aborted)) = true → rest path st → rest path' st

namespace Upkeep

variable (u : Upkeep α δ σ ε)

mutual

/-- A walk over a tree leaves everybody below the path where it began. -/
theorem walkTree_leaves (path : List (Tree α)) (t : Tree α) {st : Stage α δ σ ε}
    (rest : u.rest path st) :
    Leaves (u.rest path) u.broken (Stage.walkTree path.length t st) := by
  match t with
  | .node a ts =>
    rw [Stage.walkTree]
    refine (u.enter path st (.node a ts) rest).bind fun _ st₁ _ below => ?_
    rw [Stage.get_bind]
    split
    next all => exact u.gone _ path st₁ all below
    next some =>
      refine (walkRow_leaves (.node a ts :: path) ts below).bind fun gone st₂ row below' => ?_
      have all := Stage.walkRow_gone (Bool.eq_false_iff.2 some) row
      cases gone with
      | true => exact u.gone _ path st₂ all.symm below'
      | false => exact (u.leave path st₂ (.node a ts) below').bind fun _ _ _ above => above

theorem walkRow_leaves (path : List (Tree α)) (ts : List (Tree α)) {st : Stage α δ σ ε}
    (rest : u.rest path st) :
    Leaves (u.rest path) u.broken (Stage.walkRow path.length ts st) := by
  match ts with
  | [] => exact rest
  | t :: ts =>
    rw [Stage.walkRow, Stage.get_bind]
    split
    next =>
      refine (walkTree_leaves path t rest).bind fun gone st₁ _ between => ?_
      cases gone with
      | true => exact between
      | false => exact walkRow_leaves path ts between
    next => exact walkRow_leaves path ts rest

end

/-- So does a walk that everybody can join. -/
theorem walk_leaves {seats : List (Seat α δ σ ε)} (free : ∀ s ∈ seats, s.IsFree)
    (rest : u.rest [] ⟨seats.map Seat.joined, []⟩) (t : Tree α) :
    ∃ (st : Stage α δ σ ε) (result : Except Interruption Outcome),
      walk t seats = (st.seats.map Seat.detach, st.reports, result) ∧
      (∀ outcome, result = .ok outcome → u.rest [] st ∧
        (outcome = .aborted ↔ seats ≠ [] ∧ ∀ s ∈ st.seats, s.aborted)) ∧
      ∀ e, result = .error e → u.broken e st := by
  rw [walk_of_free t free]
  cases seats with
  | nil =>
    refine ⟨⟨[], []⟩, .ok .completed, rfl, ?_, by simp⟩
    rintro outcome ⟨⟩
    exact ⟨rest, by simp⟩
  | cons s seats =>
    have walked := u.walkTree_leaves [] t rest
    simp only [Stage.walkAttached, Stage.get_bind, List.map_cons, List.isEmpty_cons,
      Bool.false_eq_true, if_false] at walked ⊢
    rw [List.length_nil] at walked
    simp only [bind, EStateM.bind]
    cases h : Stage.walkTree 0 t ⟨s.joined :: seats.map Seat.joined, []⟩ with
    | error e st =>
      rw [h] at walked
      exact ⟨st, .error e, rfl, by simp, by rintro e' ⟨⟩; exact walked⟩
    | ok gone st =>
      rw [h] at walked
      refine ⟨st, .ok (if gone then .aborted else .completed), by cases gone <;> rfl, ?_, by simp⟩
      rintro outcome ⟨⟩
      refine ⟨walked, ?_⟩
      rw [← List.all_eq_true, ← Stage.walkTree_gone h]
      cases gone <;> simp

end Upkeep
end GraphQL
