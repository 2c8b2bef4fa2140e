import GraphQL.Proofs.Walk.Stages
import GraphQL.Proofs.Walk.Steps

/-! The protocol of coordinations. A walk keeps the accounts of all its visitors. It leaves
everybody where it stood before, or breaks off with the failure of a visitor. -/
namespace GraphQL

variable {ι α δ σ : Type}

/-- Who has just joined a walk is at rest above the root. -/
theorem Actor.joined_rests {x : Actor α δ σ} {tag : ι} {data : δ} {s : Seat α δ σ (ι × Moment α δ)}
    (visitor : s.visitor = x.recorded tag) (root : s.rootData = some data) :
    x.Rests tag data [] s.joined [] := by
  refine ⟨⟨visitor, trivial, ?_⟩, ⟨rfl, rfl⟩, nofun⟩
  rw [Seat.joined, root]
  rfl

variable [DecidableEq ι]

/-- What one visitor goes through, out of a common log. -/
def momentsOf (i : ι) (log : List (ι × Moment α δ)) : List (Moment α δ) :=
  log.filterMap fun (j, m) => if j = i then some m else none

@[simp] theorem momentsOf_append (i : ι) (log log' : List (ι × Moment α δ)) :
    momentsOf i (log ++ log') = momentsOf i log ++ momentsOf i log' := List.filterMap_append

@[simp] theorem momentsOf_own (i : ι) (h : List (Moment α δ)) : momentsOf i (h.map (i, ·)) = h := by
  simp [momentsOf]

theorem momentsOf_other {i : ι} {log : List (ι × Moment α δ)} (other : ∀ r ∈ log, r.1 ≠ i) :
    momentsOf i log = [] := by
  simpa [momentsOf] using fun j m h => other (j, m) h

@[simp] theorem mem_momentsOf {i : ι} {log : List (ι × Moment α δ)} {m : Moment α δ} :
    m ∈ momentsOf i log ↔ (i, m) ∈ log := by
  simp [momentsOf]

@[simp] theorem momentsOf_own_cons (i : ι) (m : Moment α δ) (log : List (ι × Moment α δ)) :
    momentsOf i ((i, m) :: log) = m :: momentsOf i log :=
  List.filterMap_cons_some (if_pos rfl)

/-- All seats show something of their actors, each by what its actor went through. -/
abbrev Shows (P : ι → Seat α δ σ (ι × Moment α δ) → List (Moment α δ) → Prop) (who : List ι)
    (seats : List (Seat α δ σ (ι × Moment α δ))) (log : List (ι × Moment α δ)) : Prop :=
  List.Forall₂ (fun i s => P i s (momentsOf i log)) who seats

variable {P Q : ι → Seat α δ σ (ι × Moment α δ) → List (Moment α δ) → Prop} {who : List ι}
  {seats : List (Seat α δ σ (ι × Moment α δ))} {log log' : List (ι × Moment α δ)}

theorem shows_map {seat : ι → Seat α δ σ (ι × Moment α δ)} :
    Shows P who (who.map seat) log ↔ ∀ i ∈ who, P i (seat i) (momentsOf i log) := by
  simp only [Shows, List.forall₂_map_right_iff, List.forall₂_same]

theorem Shows.of_mem (h : Shows P who seats log) {i : ι} (hi : i ∈ who) :
    ∃ s ∈ seats, P i s (momentsOf i log) := by
  induction h with
  | nil => cases hi
  | cons first _ ih =>
    rcases List.mem_cons.1 hi with rfl | hi
    · exact ⟨_, List.mem_cons_self, first⟩
    · obtain ⟨s, hs, shown⟩ := ih hi
      exact ⟨s, List.mem_cons_of_mem _ hs, shown⟩

theorem Shows.of_mem_seats (h : Shows P who seats log) {s : Seat α δ σ (ι × Moment α δ)}
    (hs : s ∈ seats) : ∃ i ∈ who, P i s (momentsOf i log) := by
  induction h with
  | nil => cases hs
  | cons first _ ih =>
    rcases List.mem_cons.1 hs with rfl | hs
    · exact ⟨_, List.mem_cons_self, first⟩
    · obtain ⟨i, hi, shown⟩ := ih hs
      exact ⟨i, List.mem_cons_of_mem _ hi, shown⟩

/-- What others go through does not matter. -/
theorem Shows.append_other (h : Shows P who seats log) (other : ∀ r ∈ log', r.1 ∉ who) :
    Shows P who seats (log ++ log') := by
  induction h with
  | nil => exact .nil
  | @cons i s who seats first _ ih =>
    refine .cons ?_ (ih fun r hr => fun mem => other r hr (List.mem_cons_of_mem _ mem))
    have nothing : momentsOf i log' = [] := by
      refine momentsOf_other ?_
      rintro r hr rfl
      exact other r hr List.mem_cons_self
    rw [momentsOf_append, nothing, List.append_nil]
    exact first

variable (actor : ι → Actor α δ σ) (data : ι → δ)

/-- A failure of a visitor that is not steady, which is the last thing recorded. -/
def BreaksOff (who : List ι) (e : Interruption) (log : List (ι × Moment α δ)) : Prop :=
  ∃ i ∈ who, log.getLast? = some (i, .failed e) ∧ ¬ (actor i).Steady

variable {actor data} {path path' : List (Tree α)}

omit [DecidableEq ι] in
theorem BreaksOff.append (log : List (ι × Moment α δ)) {e : Interruption}
    (h : BreaksOff actor who e log') :
    BreaksOff actor who e (log ++ log') := by
  obtain ⟨i, hi, last, unsteady⟩ := h
  exact ⟨i, hi, by rw [List.getLast?_append, last]; rfl, unsteady⟩

/-- A sweep takes all seats on, up to one that fails. -/
theorem sweep_takes {step : Seat.Step α δ σ (ι × Moment α δ)}
    (steps : ∀ i s h, (actor i).Rests i (data i) path s h →
      (actor i).Takes i (data i) path' step s h)
    (distinct : who.Nodup)
    (rest : Shows (fun i => (actor i).Rests i (data i) path) who seats log) :
    ∃ seats' reports result, Seat.sweep step seats = (seats', reports, result) ∧
      (∀ r ∈ reports, r.1 ∈ who) ∧
      Shows (fun i => (actor i).Keeps i (data i)) who seats' (log ++ reports) ∧
      (result = .ok () →
        Shows (fun i => (actor i).Rests i (data i) path') who seats' (log ++ reports)) ∧
      ∀ e, result = .error e → BreaksOff actor who e reports := by
  induction who generalizing seats log with
  | nil =>
    cases rest
    exact ⟨[], [], .ok (), rfl, nofun, .nil, fun _ => .nil, nofun⟩
  | cons i who ih =>
    obtain @⟨_, _⟩ | @⟨_, s, _, seats, first, others⟩ := rest
    obtain ⟨new, distinct⟩ := List.nodup_cons.1 distinct
    obtain ⟨s', h, result, stepped, keeps, rests, fails⟩ := steps i s _ first
    have otherwise : ∀ r ∈ h.map (i, ·), r.1 ∉ who := by
      simpa using fun _ _ => new
    cases result with
    | error e =>
      obtain ⟨last, unsteady⟩ := fails e rfl
      refine ⟨s' :: seats, h.map (i, ·), .error e, by simp only [Seat.sweep, stepped], by simp,
        .cons (by simpa using keeps) ?_, nofun, ?_⟩
      · exact (Shows.append_other others otherwise).imp fun _ _ rests => rests.toKeeps
      · rintro e' ⟨⟩
        exact ⟨i, List.mem_cons_self, by rw [List.getLast?_map, last]; rfl, unsteady⟩
    | ok =>
      obtain ⟨seats', reports, result, swept, tags, keeps', rests', fails'⟩ :=
        ih distinct (Shows.append_other others otherwise)
      have nothing : momentsOf i reports = [] := by
        refine momentsOf_other ?_
        rintro r hr rfl
        exact new (tags r hr)
      have mine : momentsOf i (log ++ (h.map (i, ·) ++ reports)) = momentsOf i log ++ h := by
        rw [momentsOf_append, momentsOf_append, momentsOf_own, nothing, List.append_nil]
      rw [List.append_assoc] at keeps' rests'
      refine ⟨s' :: seats', h.map (i, ·) ++ reports, result,
        by simp only [Seat.sweep, stepped, swept], ?_, .cons (mine ▸ keeps) keeps',
        fun ok => .cons (mine ▸ rests rfl) (rests' ok), ?_⟩
      · intro r hr
        rcases List.mem_append.1 hr with hr | hr
        · obtain ⟨m, -, rfl⟩ := List.mem_map.1 hr
          exact List.mem_cons_self
        · exact List.mem_cons_of_mem _ (tags r hr)
      · intro e he
        obtain ⟨j, hj, rest⟩ := (fails' e he).append (h.map (i, ·))
        exact ⟨j, List.mem_cons_of_mem _ hj, rest⟩

/-- A stage that shows something of all actors. Nobody else has recorded anything. -/
structure Stage.Presents (P : ι → Seat α δ σ (ι × Moment α δ) → List (Moment α δ) → Prop)
    (who : List ι) (st : Stage α δ σ (ι × Moment α δ)) : Prop where
  shown : Shows P who st.seats st.reports
  named : ∀ r ∈ st.reports, r.1 ∈ who

theorem Stage.Presents.mono {st : Stage α δ σ (ι × Moment α δ)} (h : st.Presents P who)
    (weaker : ∀ i, ∀ s ∈ st.seats, P i s (momentsOf i st.reports) →
      Q i s (momentsOf i st.reports)) :
    st.Presents Q who :=
  ⟨forall₂_mono h.shown fun i _ => weaker i, h.named⟩

/-- A stage with the accounts of all actors. -/
abbrev Stage.Keeps (actor : ι → Actor α δ σ) (data : ι → δ) :=
  Presents fun i => (actor i).Keeps i (data i)

/-- A stage at rest below a path. -/
abbrev Stage.Rests (actor : ι → Actor α δ σ) (data : ι → δ) (path : List (Tree α)) :=
  Presents fun i => (actor i).Rests i (data i) path

namespace Stage

variable {st : Stage α δ σ (ι × Moment α δ)}

theorem sweep_leaves {step : Seat.Step α δ σ (ι × Moment α δ)}
    (steps : ∀ i s h, (actor i).Rests i (data i) path s h →
      (actor i).Takes i (data i) path' step s h)
    (distinct : who.Nodup) (rest : st.Rests actor data path who) :
    Leaves (Stage.Rests actor data path' who)
      (fun e st => st.Keeps actor data who ∧ BreaksOff actor who e st.reports) (sweep step st) := by
  obtain ⟨seats, reports, result, swept, tags, keeps, rests, fails⟩ :=
    sweep_takes steps distinct rest.shown
  have named : ∀ r ∈ st.reports ++ reports, r.1 ∈ who :=
    List.forall_mem_append.2 ⟨rest.named, tags⟩
  cases result with
  | ok =>
    simp only [sweep, swept, Leaves]
    exact ⟨rests rfl, named⟩
  | error e =>
    simp only [sweep, swept, Leaves]
    exact ⟨⟨keeps, named⟩, (fails e rfl).append _⟩

/-- What a walk keeps of visitors that act by scripts. -/
def upkeep (actor : ι → Actor α δ σ) (data : ι → δ) (distinct : who.Nodup) :
    Upkeep α δ σ (ι × Moment α δ) where
  rest path st := st.Rests actor data path who
  broken e st := st.Keeps actor data who ∧ BreaksOff actor who e st.reports
  enter _ _ t := sweep_leaves (fun _ _ _ rests => rests.enter t) distinct
  leave _ _ _ := sweep_leaves (fun _ _ _ rests => rests.leave) distinct
  gone _ _ _ gone rest :=
    rest.mono fun _ s hs rests => rests.of_aborted (List.all_eq_true.1 gone s hs) _

end Stage
end GraphQL
