import GraphQL.Proofs.Walk.Protocol
import Mathlib.Logic.Relation

/-! Walks again and again. Whatever a walk comes to, it leaves the visitors as free as they were,
and those that ask their coordinations only for decisions keep their data for the root. The next
walk cannot tell their coordinations from new ones. -/
namespace GraphQL

variable {ι α δ σ ε β : Type}

/-! ### One walk, with any visitors -/

namespace Seat

theorem enter_visitor (t : Tree α) (depth : Nat) (s : Seat α δ σ ε) :
    (s.enter t depth).1.visitor = s.visitor := by
  simp only [enter, perform]
  split <;> [skip; rfl]
  cases dispatch s.visitor t ⟨s.performer, []⟩ with
  | ok verdict p => cases verdict <;> rfl
  | error e p => rfl

theorem leave_visitor (t : Tree α) (depth : Nat) (s : Seat α δ σ ε) :
    (s.leave t depth).1.visitor = s.visitor := by
  simp only [leave, perform]
  split
  · rfl
  · split
    · cases comeBack s.visitor t ⟨s.performer, []⟩ <;> rfl
    · split <;> rfl

/-- What each step keeps of a seat, in good order or where it breaks off, a sweep keeps of all. -/
theorem sweep_forall₂ {step : Step α δ σ ε}
    {P Q K : β → Seat α δ σ ε → Prop} (weaker : ∀ b s, P b s → K b s)
    (steps : ∀ b s, P b s → K b (step s).1 ∧ ((step s).2.2 = .ok () → Q b (step s).1))
    {bs : List β} {seats : List (Seat α δ σ ε)} (before : List.Forall₂ P bs seats) :
    List.Forall₂ K bs (sweep step seats).1 ∧
      ((sweep step seats).2.2 = .ok () → List.Forall₂ Q bs (sweep step seats).1) := by
  induction before with
  | nil => exact ⟨.nil, fun _ => .nil⟩
  | @cons b s bs seats first others ih =>
    obtain ⟨kept, good⟩ := steps b s first
    rw [sweep]
    split
    next s' reports e stepped =>
      rw [stepped] at kept
      refine ⟨.cons kept (others.imp weaker), fun ended => ?_⟩
      cases ended
    next s' reports u stepped =>
      rw [stepped] at kept good
      exact ⟨.cons kept ih.1, fun ended => .cons (good rfl) (ih.2 ended)⟩

end Seat

/-- So does a sweep of a stage. -/
theorem Stage.sweep_leaves_forall₂ {step : Seat.Step α δ σ ε}
    {P Q K : β → Seat α δ σ ε → Prop} (weaker : ∀ b s, P b s → K b s)
    (steps : ∀ b s, P b s → K b (step s).1 ∧ ((step s).2.2 = .ok () → Q b (step s).1))
    {bs : List β} {st : Stage α δ σ ε} (before : List.Forall₂ P bs st.seats) :
    Leaves (fun st => List.Forall₂ Q bs st.seats) (fun _ st => List.Forall₂ K bs st.seats)
      (sweep step st) := by
  obtain ⟨kept, good⟩ := Seat.sweep_forall₂ weaker steps before
  rcases swept : Seat.sweep step st.seats with ⟨seats, reports, _ | _⟩
  · rw [swept] at kept
    simpa only [sweep, swept, Leaves] using kept
  · rw [swept] at good
    simpa only [sweep, swept, Leaves] using good rfl

namespace Seat

/-- A seat with a new coordination. -/
def renewed (s : Seat α δ σ ε) (data : δ) : Seat α δ σ ε :=
  .new s.visitor ⟨.new data, s.performer.own⟩

/-- Who joins a walk might as well have a new coordination. -/
theorem joined_renewed {s : Seat α δ σ ε} {data : δ} (root : s.rootData = some data) :
    (s.renewed data).joined = s.joined := by
  simp only [joined, root]
  rfl

end Seat

section

variable {tag : ι} {s s' : Seat α δ σ (ι × Moment α δ)} {seats : List (Seat α δ σ (ι × Moment α δ))}

namespace Seat

/-- A seat in a walk that began with another state of it. If its visitor is an actor, it keeps its
account. -/
def Continues (s s' : Seat α δ σ (ι × Moment α δ)) : Prop :=
  s'.visitor = s.visitor ∧ ∀ (x : Actor α δ σ) tag data, s.visitor = x.recorded tag →
    s.rootData = some data → ∃ h, x.Keeps tag data s' h

/-- Such a seat, at rest below a path. -/
def Pauses (path : List (Tree α)) (s s' : Seat α δ σ (ι × Moment α δ)) : Prop :=
  s'.visitor = s.visitor ∧ ∀ (x : Actor α δ σ) tag data, s.visitor = x.recorded tag →
    s.rootData = some data → ∃ h, x.Rests tag data path s' h

theorem Pauses.continues {path : List (Tree α)} (h : s.Pauses path s') : s.Continues s' := by
  refine ⟨h.1, fun x tag data visitor root => ?_⟩
  obtain ⟨h, rests⟩ := h.2 x tag data visitor root
  exact ⟨h, rests.toKeeps⟩

/-- A step that an actor takes is a step of its seat. -/
theorem Pauses.step {path path' : List (Tree α)} {step : Step α δ σ (ι × Moment α δ)}
    (same : (step s').1.visitor = s'.visitor)
    (steps : ∀ (x : Actor α δ σ) tag data h, x.Rests tag data path s' h →
      x.Takes tag data path' step s' h) (pauses : s.Pauses path s') :
    s.Continues (step s').1 ∧ ((step s').2.2 = .ok () → s.Pauses path' (step s').1) := by
  obtain ⟨visitor, rests⟩ := pauses
  have taken (x : Actor α δ σ) tag data (acts : s.visitor = x.recorded tag)
      (root : s.rootData = some data) : ∃ h, x.Keeps tag data (step s').1 h ∧
        ((step s').2.2 = .ok () → x.Rests tag data path' (step s').1 h) := by
    obtain ⟨h, rest⟩ := rests x tag data acts root
    obtain ⟨s'', h', result, stepped, keeps, good, -⟩ := steps x tag data h rest
    rw [stepped]
    exact ⟨h ++ h', keeps, good⟩
  constructor
  · refine ⟨same.trans visitor, fun x tag data acts root => ?_⟩
    obtain ⟨h, keeps, -⟩ := taken x tag data acts root
    exact ⟨h, keeps⟩
  · refine fun ended => ⟨same.trans visitor, fun x tag data acts root => ?_⟩
    obtain ⟨h, -, rests⟩ := taken x tag data acts root
    exact ⟨h, rests ended⟩

/-- What a walk keeps of a seat: its visitor, whether it is free, and an actor's data for the root.
-/
structure Same (s s' : Seat α δ σ (ι × Moment α δ)) : Prop where
  visitor : s'.visitor = s.visitor
  free : s'.IsFree ↔ s.IsFree
  root : ∀ (x : Actor α δ σ) tag, s.visitor = x.recorded tag → s.rootData ≠ none →
    s'.rootData = s.rootData

theorem Same.refl (s : Seat α δ σ (ι × Moment α δ)) : s.Same s := ⟨rfl, .rfl, fun _ _ _ _ => rfl⟩

theorem Same.trans {s'' : Seat α δ σ (ι × Moment α δ)} (h : s.Same s') (h' : s'.Same s'') :
    s.Same s'' where
  visitor := h'.visitor.trans h.visitor
  free := h'.free.trans h.free
  root x tag visitor root := by
    have first := h.root x tag visitor root
    exact (h'.root x tag (h.visitor.trans visitor) (first ▸ root)).trans first

/-- Who leaves a walk is free again, and an actor has kept its data for the root. -/
theorem Continues.detach (free : s.IsFree) (h : s.Continues s') : s.Same s'.detach := by
  refine ⟨h.1, iff_of_true rfl free, fun x tag visitor root => ?_⟩
  obtain ⟨data, root⟩ := Option.ne_none_iff_exists'.1 root
  obtain ⟨h, keeps⟩ := h.2 x tag data visitor root
  rw [root, ← keeps.sound.bottom, ← keeps.coordination]
  rfl

/-- So is who has joined in vain. -/
theorem same_joined_detach (free : s.IsFree) : s.Same s.joined.detach := by
  refine ⟨rfl, iff_of_true rfl free, fun _ _ _ _ => ?_⟩
  rw [rootData, detach, joined]
  cases s.rootData <;> rfl

end Seat

/-- What a walk keeps of all its visitors. -/
def continuing (seats : List (Seat α δ σ (ι × Moment α δ))) : Upkeep α δ σ (ι × Moment α δ) where
  rest path st := List.Forall₂ (Seat.Pauses path) seats st.seats
  broken _ st := List.Forall₂ Seat.Continues seats st.seats
  enter path _ t := Stage.sweep_leaves_forall₂ (P := Seat.Pauses path)
    (fun _ _ => Seat.Pauses.continues) fun _ s pauses =>
      pauses.step (s.enter_visitor t path.length) fun _ _ _ _ rests => rests.enter t
  leave path _ t := Stage.sweep_leaves_forall₂ (P := Seat.Pauses (t :: path))
    (fun _ _ => Seat.Pauses.continues) fun _ s pauses =>
      pauses.step (s.leave_visitor t path.length) fun _ _ _ _ rests => rests.leave
  gone path path' st gone rest := by
    refine forall₂_mono rest fun s _ s' hs' pauses => ⟨pauses.1, fun x tag data acts root => ?_⟩
    obtain ⟨h, rests⟩ := pauses.2 x tag data acts root
    exact ⟨h, rests.of_aborted (List.all_eq_true.1 gone s' hs') path'⟩

/-- Every walk keeps its visitors, whatever it comes to. -/
theorem walk_same (seats : List (Seat α δ σ (ι × Moment α δ))) (t : Tree α) :
    List.Forall₂ Seat.Same seats (walk t seats).1 := by
  rcases Seat.all_free_or_first_taken seats with free | ⟨before, s, later, rfl, free, taken⟩
  · have rest : List.Forall₂ (Seat.Pauses []) seats (seats.map Seat.joined) :=
      List.forall₂_map_right_iff.2 <| List.forall₂_same.2 fun s _ =>
        ⟨rfl, fun x tag data visitor root => ⟨[], Actor.joined_rests visitor root⟩⟩
    obtain ⟨st, result, walked, ends, breaks⟩ := (continuing seats).walk_leaves free rest t
    have continues : List.Forall₂ Seat.Continues seats st.seats := by
      cases result with
      | ok outcome => exact (ends outcome rfl).1.imp fun _ _ => Seat.Pauses.continues
      | error e => exact breaks e rfl
    rw [walked, List.forall₂_map_right_iff]
    exact forall₂_mono continues fun s hs s' _ => Seat.Continues.detach (free s hs)
  · rw [walk_of_taken t free taken]
    refine List.rel_append ?_ (List.forall₂_same.2 fun s _ => Seat.Same.refl s)
    exact List.forall₂_map_right_iff.2 <| List.forall₂_same.2 fun s hs =>
      Seat.same_joined_detach (free s hs)

end

/-! ### Any number of walks -/

section

variable [DecidableEq ι] {S S' : ι → Seat α δ σ (ι × Moment α δ)}

/-- Visitors with names, after a walk of some of them. -/
def seatsAfter (S : ι → Seat α δ σ (ι × Moment α δ)) (who : List ι) (t : Tree α) (i : ι) :
    Seat α δ σ (ι × Moment α δ) :=
  ((who.zip (walk t (who.map S)).1).lookup i).getD (S i)

/-- What can happen to visitors: a walk of some of them, over any tree and with any result; and
between walks, anything but to their coordinations. -/
inductive Happens : (ι → Seat α δ σ (ι × Moment α δ)) → (ι → Seat α δ σ (ι × Moment α δ)) → Prop
  | walk (S : ι → Seat α δ σ (ι × Moment α δ)) (who : List ι) (t : Tree α) :
      Happens S (seatsAfter S who t)
  | between (S : ι → Seat α δ σ (ι × Moment α δ)) (own : ι → σ) (aborted : ι → Bool)
      (skippingBelow : ι → Option Nat) : Happens S fun i =>
        ⟨(S i).visitor, ⟨(S i).performer.coordination, own i⟩, aborted i, skippingBelow i⟩

theorem lookup_zip {R : ι → β → Prop} {who : List ι} {bs : List β}
    (h : List.Forall₂ R who bs) (i : ι) {b : β} (other : R i b) : R i (((who.zip bs).lookup i).getD b) := by
  induction h with
  | nil => exact other
  | @cons j c who bs first _ ih =>
    rw [List.zip_cons_cons, List.lookup_cons]
    by_cases same : i = j
    · subst same
      simpa using first
    · rw [beq_false_of_ne same]
      exact ih

/-- All of that keeps every visitor. -/
theorem Happens.same (happens : Happens S S') (i : ι) : (S i).Same (S' i) := by
  cases happens with
  | walk who t =>
    have kept := walk_same (who.map S) t
    rw [List.forall₂_map_left_iff] at kept
    exact lookup_zip kept i (Seat.Same.refl (S i))
  | between own aborted skippingBelow => exact ⟨rfl, .rfl, fun _ _ _ _ => rfl⟩

/-- However often it happens. -/
theorem same_of_past (past : Relation.ReflTransGen Happens S S') (i : ι) : (S i).Same (S' i) := by
  induction past with
  | refl => exact Seat.Same.refl (S i)
  | tail _ last ih => exact ih.trans (last.same i)

/-- After any walks, visitors are free if they were free before, and those that never replace their
coordination have kept their data for the root. The next walk is the one that they would take part
in with new coordinations and with nothing noted at their seats. If one of them is still in another
walk, the next walk does not begin: those before it join and leave again, and the others stay as
they are. -/
theorem visitors_reusable (past : Relation.ReflTransGen Happens S S') :
    (∀ i, (S' i).IsFree ↔ (S i).IsFree) ∧
    (∀ i (x : Actor α δ σ) tag, (S i).visitor = x.recorded tag → (S i).rootData ≠ none →
      (S' i).rootData = (S i).rootData) ∧
    (∀ (who : List ι) (t : Tree α) (data : ι → δ), (∀ i ∈ who, (S i).IsFree) →
      (∀ i ∈ who, (S' i).rootData = some (data i)) →
      walk t (who.map S') = walk t (who.map fun i => (S' i).renewed (data i))) ∧
    ∀ (before : List ι) (i : ι) (later : List ι) (t : Tree α), (∀ j ∈ before, (S j).IsFree) →
      ¬ (S i).IsFree →
      walk t ((before ++ i :: later).map S') =
        (before.map (fun j => (S' j).joined.detach) ++ (i :: later).map S', [],
          .error (.misuse .attachedTwice)) := by
  have free i := (same_of_past past i).free
  refine ⟨free, fun i => (same_of_past past i).root, ?_, ?_⟩
  · intro who t data joins root
    have fresh : ∀ s ∈ who.map fun i => (S' i).renewed (data i), s.IsFree :=
      List.forall_mem_map.2 fun _ _ => rfl
    rw [walk_of_free t (List.forall_mem_map.2 fun i hi => (free i).2 (joins i hi)),
      walk_of_free t fresh, List.map_map, List.map_map]
    have joined : who.map (Seat.joined ∘ S') =
        who.map (Seat.joined ∘ fun i => (S' i).renewed (data i)) :=
      List.map_congr_left fun i hi => (Seat.joined_renewed (root i hi)).symm
    rw [joined]
  · intro before i later t joins taken
    rw [List.map_append, List.map_cons, walk_of_taken t
      (List.forall_mem_map.2 fun j hj => (free j).2 (joins j hj)) (mt (free i).1 taken),
      List.map_map]
    rfl

end

/-- Visitors that count depths. The second one fails at the node 1, and the third one is in another
walk. -/
def crowd (i : Fin 3) : Seat Nat Nat Unit (Fin 3 × Moment Nat Nat) :=
  let actor : Actor Nat Nat Unit :=
    ⟨fun t depth _ => .ask (.visitWith (depth + 1)) fun _ =>
      if i = 1 ∧ t.label = 1 then .fail (.failure "lost") else .done, fun _ _ _ => .done⟩
  ⟨actor.recorded i, ⟨⟨.initial, i = 2, [0]⟩, ()⟩, false, none⟩

/-- The failure comes when both visitors have new data for the children of 1. -/
theorem visitors_reusable_crowd :
    let t : Tree Nat := .node 0 [.leaf 1]
    let after := seatsAfter crowd [0, 1] t
    (walk t ([0, 1].map crowd)).2.2 = .error (.failure "lost") ∧
      (after 1).performer.coordination.data = [2, 1, 0] ∧ (∀ i ∈ [0, 1], (after i).IsFree) ∧
      walk t ([0, 1].map after) = walk t ([0, 1].map fun i => (after i).renewed 0) ∧
      walk t ([0, 2, 1].map after) =
        ([(after 0).joined.detach, after 2, after 1], [], .error (.misuse .attachedTwice)) := by
  intro t after
  obtain ⟨free, root, again, taken⟩ := visitors_reusable (.single (.walk crowd [0, 1] t))
  have joins : ∀ i ∈ [0, 1], (crowd i).IsFree := by
    rintro i hi
    rcases List.mem_pair.1 hi with rfl | rfl <;> rfl
  have kept : ∀ i, (after i).rootData = some 0 := fun i => root i _ _ rfl nofun
  refine ⟨by decide +kernel, by decide +kernel, fun i hi => (free i).2 (joins i hi), ?_, ?_⟩
  · exact again [0, 1] t (fun _ => 0) joins fun i _ => kept i
  · exact taken [0] 2 [1] t (by simpa using joins 0 (by decide)) (by simp [Seat.IsFree, crowd])

end GraphQL
