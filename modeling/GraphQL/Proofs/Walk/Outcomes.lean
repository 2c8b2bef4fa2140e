import GraphQL.Proofs.Walk.Troupes

/-! How walks end: a walk is aborted once all its visitors have given up, and completed otherwise.
Who has given up is left alone. -/
namespace GraphQL

variable {ι α δ σ : Type}

/-- A visitor has given up. -/
def GaveUp (i : ι) (log : List (ι × Moment α δ)) : Prop := (i, .asked .abort (.ok ())) ∈ log

theorem exists_last_mem {β : Type} {P : β → Prop} {l : List β} (some : ∃ x ∈ l, P x) :
    ∃ before x later, l = before ++ x :: later ∧ P x ∧ ∀ y ∈ later, ¬ P y := by
  induction l with
  | nil => simp at some
  | cons x l ih =>
    by_cases further : ∃ y ∈ l, P y
    · obtain ⟨before, y, later, rfl, hy, last⟩ := ih further
      exact ⟨x :: before, y, later, rfl, hy, last⟩
    · obtain ⟨y, hy, here⟩ := some
      rcases List.mem_cons.1 hy with rfl | hy
      · exact ⟨[], y, l, rfl, here, by simpa using further⟩
      · exact absurd ⟨y, hy, here⟩ further

variable [DecidableEq ι]

namespace Troupe

variable {T : Troupe ι α δ σ} {data : ι → δ} {who : List ι} {st : Stage α δ σ (ι × Moment α δ)}
  {i : ι} {before later : List (ι × Moment α δ)}

/-- A visitor's part in a walk is aborted once it has given up. -/
theorem account_aborted (keeps : st.Keeps T.actor data who) (hi : i ∈ who)
    (split : st.reports = before ++ later) :
    (account data i before).coordination.state = .aborted ↔ GaveUp i before := by
  obtain ⟨sound, orderly⟩ := account_sound keeps hi (List.nil_append st.reports).symm
  rw [split, momentsOf_append, Account.orderly_append] at orderly
  rw [account, Account.after_aborted (Account.joined_sound (data i)) orderly.1, mem_momentsOf]
  simp [Account.joined, GaveUp]

/-- From then on it does not hear from the walk. -/
theorem no_call_of_gaveUp (keeps : st.Keeps T.actor data who) (hi : i ∈ who)
    (split : st.reports = before ++ later) (gone : GaveUp i before) {m : Moment α δ}
    (hm : (i, m) ∈ later) : ¬ m.IsCall := by
  obtain ⟨sound, orderly⟩ := account_sound keeps hi split
  exact Account.no_call_of_aborted sound ((account_aborted keeps hi split).2 gone) orderly m
    (mem_momentsOf.2 hm)

/-- At the end, the seats of those that have given up are marked. -/
theorem seats_aborted (rests : st.Rests T.actor data [] who) :
    (∀ s ∈ st.seats, s.aborted) ↔ ∀ i ∈ who, GaveUp i st.reports := by
  have keeps := rests.mono fun _ _ _ rests => rests.toKeeps
  have marked : ∀ i ∈ who, ∀ s, (T.actor i).Rests i (data i) [] s (momentsOf i st.reports) →
      (s.aborted ↔ GaveUp i st.reports) := by
    intro i hi s rest
    rw [← account_aborted keeps hi (List.append_nil _).symm]
    have stands := rest.stands
    rw [Seat.Stands] at stands
    split at stands
    next aborted => simpa [aborted, account] using stands
    next listens => simp [listens, account, stands.1]
  constructor
  · intro all i hi
    obtain ⟨s, hs, rest⟩ := rests.shown.of_mem hi
    exact (marked i hi s rest).1 (all s hs)
  · intro all s hs
    obtain ⟨i, hi, rest⟩ := rests.shown.of_mem_seats hs
    exact (marked i hi s rest).2 (all i hi)

omit [DecidableEq ι] in
/-- If all have given up, one of them was the last. -/
theorem exists_last_gaveUp {log : List (ι × Moment α δ)} (some : who ≠ [])
    (all : ∀ i ∈ who, GaveUp i log) :
    ∃ last before later, log = before ++ (last, .asked .abort (.ok ())) :: later ∧
      ∀ i ∈ who, i ≠ last → GaveUp i before := by
  obtain ⟨first, hfirst⟩ := List.exists_mem_of_ne_nil who some
  -- The last one to give up is the one whose moment is the last of its kind.
  obtain ⟨before, ⟨last, m⟩, later, rfl, rfl, noneAfter⟩ :=
    exists_last_mem (P := fun r => r.2 = .asked .abort (.ok ())) ⟨_, all first hfirst, rfl⟩
  refine ⟨last, before, later, rfl, fun i hi other => ?_⟩
  rcases List.mem_append.1 (all i hi) with mem | mem
  · exact mem
  · rcases List.mem_cons.1 mem with mem | mem
    · exact absurd (congrArg Prod.fst mem) other
    · exact absurd rfl (noneAfter _ mem)

/-- No visitor fails in a walk. -/
def Calm (T : Troupe ι α δ σ) (who : List ι) (t : Tree α) : Prop :=
  ∀ i e, (i, .failed e) ∉ (walk t (who.map T.seat)).2.1

/-- Steady actors do not fail. -/
theorem calm_of_steady (distinct : who.Nodup) (based : T.Based data who)
    (steady : ∀ i ∈ who, (T.actor i).Steady) (t : Tree α) : T.Calm who t := by
  intro i e
  by_cases free : ∀ i ∈ who, (T.seat i).IsFree
  · obtain ⟨st, result, walked, keeps, ends, fails⟩ := walk_free based distinct free t
    rw [walked]
    intro failed
    cases result with
    | ok outcome =>
      obtain ⟨s, -, rest⟩ := (ends outcome rfl).1.shown.of_mem (keeps.named _ failed)
      exact rest.calm e (mem_momentsOf.2 failed)
    | error e' =>
      obtain ⟨j, hj, -, unsteady⟩ := fails e' rfl
      exact unsteady (steady j hj)
  · obtain ⟨seats, walked⟩ := walk_taken free t
    simp [walked]

/-- A walk in which no visitor fails comes to its end. It is aborted if there are visitors and all
of them have given up, and completed otherwise, and their coordinations say who has given up. Nobody
who has given up is called again, and nobody at all once they all have. -/
theorem walk_outcome (T : Troupe ι α δ σ) (data : ι → δ) (who : List ι) (distinct : who.Nodup)
    (based : T.Based data who) (free : ∀ i ∈ who, (T.seat i).IsFree) (t : Tree α)
    (calm : T.Calm who t) :
    ∃ seats log outcome, walk t (who.map T.seat) = (seats, log, .ok outcome) ∧
      (outcome = .aborted ↔ who ≠ [] ∧ ∀ i ∈ who, GaveUp i log) ∧
      List.Forall₂ (fun i s => s.performer.coordination.attached = false ∧
        (GaveUp i log → s.performer.coordination.state = .aborted) ∧
        (¬ GaveUp i log → s.performer.coordination.state = .completed)) who seats ∧
      (∀ i before later, log = before ++ (i, .asked .abort (.ok ())) :: later →
        ∀ m, (i, m) ∈ later → ¬ m.IsCall) ∧
      (outcome = .aborted → ∃ last before later, last ∈ who ∧
        log = before ++ (last, .asked .abort (.ok ())) :: later ∧
        (∀ i ∈ who, i ≠ last → GaveUp i before) ∧ ∀ r ∈ later, ¬ r.2.IsCall) := by
  obtain ⟨st, result, walked, keeps, ends, fails⟩ := walk_free based distinct free t
  obtain ⟨outcome, rfl⟩ : ∃ outcome, result = .ok outcome := by
    cases result with
    | ok outcome => exact ⟨outcome, rfl⟩
    | error e =>
      obtain ⟨i, -, last, -⟩ := fails e rfl
      have failed := calm i e
      rw [walked] at failed
      exact absurd (List.mem_of_getLast? last) failed
  obtain ⟨rests, aborted⟩ := ends outcome rfl
  rw [seats_aborted rests] at aborted
  have quiet {i : ι} {before later : List (ι × Moment α δ)} (hi : i ∈ who)
      (split : st.reports = before ++ later) := no_call_of_gaveUp keeps hi split
  have named {i : ι} {m : Moment α δ} (hm : (i, m) ∈ st.reports) : i ∈ who := keeps.named _ hm
  refine ⟨_, st.reports, outcome, walked, aborted, ?_, ?_, fun gone => ?_⟩
  · rw [List.forall₂_map_right_iff]
    refine forall₂_mono keeps.shown fun i hi s _ kept => ?_
    have marked := account_aborted keeps hi (List.append_nil st.reports).symm
    rw [account, ← kept.coordination] at marked
    refine ⟨rfl, fun gone => if_pos (marked.2 gone), fun stays => if_neg (mt marked.1 stays)⟩
  · intro i before later split m hm
    have hi : i ∈ who := named (m := .asked .abort (.ok ())) (by simp [split])
    rw [List.append_cons] at split
    exact quiet hi split (by simp [GaveUp]) hm
  · obtain ⟨some, all⟩ := aborted.1 gone
    obtain ⟨last, before, later, split, earlier⟩ := exists_last_gaveUp some all
    have hlast : last ∈ who := named (m := .asked .abort (.ok ())) (by simp [split])
    refine ⟨last, before, later, hlast, split, earlier, ?_⟩
    rintro ⟨i, m⟩ hm
    have hi : i ∈ who := named (m := m) (by simp [split, hm])
    rw [List.append_cons] at split
    refine quiet hi split ?_ hm
    by_cases other : i = last
    · simp [GaveUp, other]
    · exact List.mem_append_left _ (earlier i hi other)

/-- Two visitors, who give up at nodes of their own. One skips what is below 1. -/
def leaving : Troupe Bool Nat Unit Unit where
  actor i := ⟨fun t _ _ => .ask (if i then if t.label = 1 then .skip else
    if t.label = 4 then .abort else .visit else if t.label = 3 then .abort else .visit)
      fun _ => .done, fun _ _ _ => .done⟩
  performer _ := ⟨.new (), ()⟩
  aborted _ := false
  skippingBelow _ := none

/-- The walk ends at 4, where the second visitor gives up: the first one has done so at 3. -/
theorem walk_outcome_leaving :
    let t : Tree Nat := .node 0 [.node 1 [.leaf 2, .leaf 3], .leaf 4, .leaf 5]
    ∃ seats log, walk t ([false, true].map leaving.seat) = (seats, log, .ok .aborted) ∧
      (∀ i, GaveUp i log) ∧
      seats.map (fun s => s.performer.coordination.state) = [.aborted, .aborted] ∧
      ∃ last before later, log = before ++ (last, .asked .abort (.ok ())) :: later ∧
        (∀ i, i ≠ last → GaveUp i before) ∧ ∀ r ∈ later, ¬ r.2.IsCall := by
  intro t
  have distinct : [false, true].Nodup := by decide
  have based : leaving.Based (fun _ => ()) [false, true] := fun _ _ => rfl
  have free : ∀ i ∈ [false, true], (leaving.seat i).IsFree := fun _ _ => rfl
  have steady : ∀ i ∈ [false, true], (leaving.actor i).Steady := by
    refine fun i _ t _ _ c _ => ⟨fun _ => ?_, fun _ => trivial⟩
    simp only [leaving, Script.Settles]
    split <;> trivial
  obtain ⟨seats, log, outcome, walked, aborted, states, -, ending⟩ :=
    walk_outcome leaving (fun _ => ()) [false, true] distinct based free t
      (calm_of_steady distinct based steady t)
  have ran : (walk t ([false, true].map leaving.seat)).2.2 = .ok .aborted := by decide +kernel
  rw [walked] at ran
  obtain rfl : outcome = .aborted := Except.ok.inj ran
  have all : ∀ i, GaveUp i log := fun i => (aborted.1 rfl).2 i (by cases i <;> decide)
  obtain ⟨last, before, later, -, split, earlier, quiet⟩ := ending rfl
  refine ⟨seats, log, walked, all, ?_, last, before, later, split, ?_, quiet⟩
  · rw [List.forall₂_cons_left_iff] at states
    obtain ⟨s, rest, ⟨-, first, -⟩, states, rfl⟩ := states
    rw [List.forall₂_cons_left_iff] at states
    obtain ⟨s', rest, ⟨-, second, -⟩, states, rfl⟩ := states
    rw [List.forall₂_nil_left_iff.1 states, List.map_cons, List.map_cons, first (all false),
      second (all true), List.map_nil]
  · exact fun i other => earlier i (by cases i <;> decide) other

end Troupe
end GraphQL
