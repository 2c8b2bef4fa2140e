import GraphQL.Proofs.Walk.Protocol

/-! Walks of a troupe: several visitors, each with scripts of its own. What the walk does to their
coordinations follows from what each of them went through. -/
namespace GraphQL

open Coordination (Request)

variable {ι α δ σ : Type} [DecidableEq ι]

/-- Visitors with names, each with its part in walks and with what its seat shows. -/
structure Troupe (ι α δ σ : Type) where
  actor : ι → Actor α δ σ
  performer : ι → Performer δ σ
  aborted : ι → Bool
  skippingBelow : ι → Option Nat

namespace Troupe

/-- The seat of a visitor, which records under its name. -/
def seat (T : Troupe ι α δ σ) (i : ι) : Seat α δ σ (ι × Moment α δ) :=
  ⟨(T.actor i).recorded i, T.performer i, T.aborted i, T.skippingBelow i⟩

/-- The data for the root that the visitors were given. -/
def Based (T : Troupe ι α δ σ) (data : ι → δ) (who : List ι) : Prop :=
  ∀ i ∈ who, (T.seat i).rootData = some (data i)

variable {T : Troupe ι α δ σ} {data : ι → δ} {who : List ι}

theorem rest_joined (based : T.Based data who) :
    Stage.Rests T.actor data [] who ⟨(who.map T.seat).map Seat.joined, []⟩ := by
  refine ⟨?_, nofun⟩
  rw [List.map_map]
  exact shows_map.2 fun i hi => Actor.joined_rests rfl (based i hi)

/-- How a walk of a troupe ends in which everybody can take part. -/
theorem walk_free (based : T.Based data who) (distinct : who.Nodup)
    (free : ∀ i ∈ who, (T.seat i).IsFree) (t : Tree α) :
    ∃ (st : Stage α δ σ (ι × Moment α δ)) (result : Except Interruption Outcome),
      walk t (who.map T.seat) = (st.seats.map Seat.detach, st.reports, result) ∧
      st.Keeps T.actor data who ∧
      (∀ outcome, result = .ok outcome → st.Rests T.actor data [] who ∧
        (outcome = .aborted ↔ who ≠ [] ∧ ∀ s ∈ st.seats, s.aborted)) ∧
      ∀ e, result = .error e → BreaksOff T.actor who e st.reports := by
  obtain ⟨st, result, walked, ends, breaks⟩ := (Stage.upkeep T.actor data distinct).walk_leaves
    (List.forall_mem_map.2 free) (rest_joined based) t
  refine ⟨st, result, walked, ?_, fun outcome ended => ?_, fun e broken => (breaks e broken).2⟩
  · cases result with
    | ok outcome => exact (ends outcome rfl).1.mono fun _ _ _ rests => rests.toKeeps
    | error e => exact (breaks e rfl).1
  · obtain ⟨rests, aborted⟩ := ends outcome ended
    exact ⟨rests, by simpa using aborted⟩

/-- What is known of a visitor after a part of a walk. -/
def account (data : ι → δ) (i : ι) (log : List (ι × Moment α δ)) : Account α δ :=
  (Account.joined (data i)).after (momentsOf i log)

/-- At any time in a walk, the account of a visitor is sound, and what follows is in order. -/
theorem account_sound {st : Stage α δ σ (ι × Moment α δ)} (keeps : st.Keeps T.actor data who)
    {i : ι} (hi : i ∈ who) {before later : List (ι × Moment α δ)}
    (split : st.reports = before ++ later) :
    (account data i before).Sound (data i) ∧
      (account data i before).Orderly (momentsOf i later) := by
  obtain ⟨s, -, kept⟩ := keeps.shown.of_mem hi
  have orderly := kept.orderly
  rw [split, momentsOf_append, Account.orderly_append] at orderly
  exact ⟨(Account.joined_sound (data i)).after orderly.1, orderly.2⟩

omit [DecidableEq ι] in
/-- A walk that cannot begin records nothing. -/
theorem walk_taken (taken : ¬ ∀ i ∈ who, (T.seat i).IsFree) (t : Tree α) :
    ∃ seats, walk t (who.map T.seat) = (seats, [], .error (.misuse .attachedTwice)) := by
  rcases Seat.all_free_or_first_taken (who.map T.seat) with
    free | ⟨before, s, later, split, free, occupied⟩
  · exact absurd (List.forall_mem_map.1 free) taken
  · rw [split]
    exact ⟨_, walk_of_taken t free occupied⟩

/-- Coordinations keep to their protocol, whatever the visitors do. At any time in a walk a
visitor's data are those for the root, and one more for each node that it has entered and not left
yet; what happens next is in order; and once a visit has been decided on, every request is refused
and changes nothing, up to the next visit. No walk comes to grief but by a failure of a visitor's
own, unless it cannot even begin. -/
theorem coordination_protocol (T : Troupe ι α δ σ) (data : ι → δ) (who : List ι)
    (distinct : who.Nodup) (based : T.Based data who) (t : Tree α) :
    ∃ seats log result, walk t (who.map T.seat) = (seats, log, result) ∧
      (∀ e, result = .error e →
        (∃ i ∈ who, ¬ (T.seat i).IsFree) ∧ log = [] ∧ e = .misuse .attachedTwice ∨
          ∃ i ∈ who, log.getLast? = some (i, .failed e)) ∧
      (∀ i ∈ who, ∀ before later, log = before ++ later →
        let a := account data i before
        a.coordination.attached = true ∧
        a.coordination.data.length = 1 + a.ledger.entered.length ∧
        a.coordination.data.getLast? = some (data i) ∧
        (∀ m rest, later = (i, m) :: rest → m.Fits a) ∧
        ∀ request : Request δ, a.coordination.state ≠ .undecided →
          request.make a.coordination =
            .error (.decision request.decision a.coordination.state) a.coordination) ∧
      (∀ i ∈ who, ∀ before between later first second,
        log = before ++ (i, .asked first (.ok ())) :: between ++
            (i, .asked second (.ok ())) :: later →
          ∃ t d, (i, .begun t d) ∈ between) ∧
      ((∀ i ∈ who, (T.seat i).IsFree) →
        List.Forall₂ (fun i s =>
          s.performer.coordination = (account data i log).coordination.detach) who seats) := by
  by_cases free : ∀ i ∈ who, (T.seat i).IsFree
  · obtain ⟨st, result, walked, keeps, -, fails⟩ := walk_free based distinct free t
    refine ⟨_, st.reports, result, walked, ?_, ?_, ?_, fun _ => ?_⟩
    · rintro e he
      obtain ⟨i, hi, last, -⟩ := fails e he
      exact .inr ⟨i, hi, last⟩
    · intro i hi before later split
      obtain ⟨sound, orderly⟩ := account_sound keeps hi split
      refine ⟨sound.attached, sound.length, sound.bottom, ?_,
        fun r decided => r.make_refused decided⟩
      rintro m rest rfl
      rw [momentsOf_own_cons] at orderly
      exact orderly.1
    · intro i hi before between later first second split
      obtain ⟨sound, orderly⟩ := account_sound keeps hi (List.nil_append st.reports).symm
      rw [split, momentsOf_append, momentsOf_append, momentsOf_own_cons,
        momentsOf_own_cons] at orderly
      obtain ⟨t, d, between⟩ := Account.begun_between sound orderly
      exact ⟨t, d, mem_momentsOf.1 between⟩
    · rw [List.forall₂_map_right_iff]
      exact keeps.shown.imp fun i s kept => congrArg Coordination.detach kept.coordination
  · obtain ⟨seats, walked⟩ := walk_taken free t
    refine ⟨seats, [], _, walked, ?_, ?_, ?_, fun all => absurd all free⟩
    · rintro e ⟨⟩
      exact .inl ⟨by simpa using free, rfl, rfl⟩
    · intro i hi before later split
      obtain ⟨rfl, rfl⟩ := List.append_eq_nil_iff.1 split.symm
      have sound : (account data i ([] : List (ι × Moment α δ))).Sound (data i) :=
        Account.joined_sound (data i)
      exact ⟨sound.attached, sound.length, sound.bottom, nofun,
        fun r decided => r.make_refused decided⟩
    · intro i hi before between later first second split
      simp at split

/-- One visitor counts depths, and asks again in visits and in returns. The other one asks twice in
a visit, and does not catch the refusal. -/
def careless : Troupe Bool Nat Nat Unit where
  actor
    | false =>
      ⟨fun _ depth _ => .ask (.visitWith (depth + 1)) fun _ => .ask .skip fun _ => .done,
        fun _ _ _ => .ask .abort fun _ => .look fun _ => .done⟩
    | true =>
      ⟨fun t _ _ => .ask .visit fun _ => if t.label = 3 then .ask .skip fun
          | .ok _ => .done
          | .error m => .fail (.misuse m)
        else .done, fun _ _ _ => .done⟩
  performer _ := ⟨.new 0, ()⟩
  aborted _ := false
  skippingBelow _ := none

/-- Both visitors have entered the nodes 0, 1 and 3 when the second one fails at 3. -/
theorem coordination_protocol_careless :
    let t : Tree Nat := .node 0 [.node 1 [.leaf 2, .leaf 3]]
    let refusal : Interruption := .misuse (.decision .skip .visiting)
    ∃ seats log, walk t ([false, true].map careless.seat) = (seats, log, .error refusal) ∧
      (∃ i ∈ [false, true], log.getLast? = some (i, .failed refusal)) ∧
      (∀ i ∈ [false, true], (account (fun _ => 0) i log).coordination.data.length =
        1 + (account (fun _ => 0) i log).ledger.entered.length) ∧
      seats.map (fun s => s.performer.coordination.data) = [[3, 2, 1, 0], [0, 0, 0, 0]] ∧
      ([false, true].map fun i => (account (fun _ => 0) i log).ledger.entered.map Tree.label) =
        [[3, 1, 0], [3, 1, 0]] := by
  intro t refusal
  obtain ⟨seats, log, result, walked, fails, protocol, -, -⟩ :=
    coordination_protocol careless (fun _ => 0) [false, true] (by decide)
      (fun _ _ => rfl) t
  have ran : (walk t ([false, true].map careless.seat)).2.2 = .error refusal := by decide +kernel
  obtain rfl : result = .error refusal := by rw [← ran, walked]
  refine ⟨seats, log, walked, ?_, fun i hi => ?_, ?_, ?_⟩
  · rcases fails refusal rfl with ⟨-, -, other⟩ | last
    · exact absurd other (by decide)
    · exact last
  · exact (protocol i hi log [] (List.append_nil log).symm).2.1
  · have ran : ((walk t ([false, true].map careless.seat)).1.map fun s =>
        s.performer.coordination.data) = [[3, 2, 1, 0], [0, 0, 0, 0]] := by decide +kernel
    rw [← ran, walked]
  · have ran : ([false, true].map fun i => (account (fun _ => 0) i
        (walk t ([false, true].map careless.seat)).2.1).ledger.entered.map Tree.label) =
        [[3, 1, 0], [3, 1, 0]] := by decide +kernel
    rw [← ran, walked]

end Troupe
end GraphQL
