import GraphQL.Walk.Parallel

/-! Joining walks and leaving them. Whoever joins starts afresh, with the data for the root only; if
one cannot join, those that have joined before it leave again. -/
namespace GraphQL

variable {α δ σ ε : Type}

namespace Coordination

variable {c : Coordination δ}

theorem attach_of_free (free : c.attached = false) :
    attach c = .ok () ⟨.initial, true, c.data.getLast?.toList⟩ := by
  obtain ⟨state, attached, data⟩ := c
  cases free
  rfl

theorem attach_of_attached (attached : c.attached = true) : attach c = .error .attachedTwice c := by
  obtain ⟨state, _, data⟩ := c
  cases attached
  rfl

end Coordination

namespace Seat

/-- A step that a seat takes in a walk, with what is reported and how it ends. -/
abbrev Step (α δ σ ε : Type) :=
  Seat α δ σ ε → Seat α δ σ ε × List ε × Except Interruption Unit

/-- A seat whose visitor takes no part in any walk. -/
def IsFree (s : Seat α δ σ ε) : Prop := s.performer.coordination.attached = false

/-- The data for the root, which a coordination was made with. -/
def rootData (s : Seat α δ σ ε) : Option δ := s.performer.coordination.data.getLast?

/-- A seat whose visitor has just joined a walk. -/
def joined (s : Seat α δ σ ε) : Seat α δ σ ε :=
  ⟨s.visitor,
    ⟨⟨.initial, true, s.rootData.toList⟩, s.performer.own⟩, false, none⟩

variable {s : Seat α δ σ ε} {seats before later : List (Seat α δ σ ε)}

theorem attach_of_isFree (free : s.IsFree) : s.attach = .ok s.joined := by
  simp only [attach, Coordination.attach_of_free free, joined, rootData]

theorem attach_of_not_isFree (taken : ¬ s.IsFree) : s.attach = .error .attachedTwice := by
  have attached : s.performer.coordination.attached = true := by simpa [IsFree] using taken
  simp only [attach, Coordination.attach_of_attached attached]

theorem attachAll_of_free (free : ∀ s ∈ seats, s.IsFree) :
    attachAll seats = (seats.map joined, .ok ()) := by
  induction seats with
  | nil => rfl
  | cons s seats ih =>
    have others := ih fun s' hs' => free s' (List.mem_cons_of_mem _ hs')
    simp only [attachAll, attach_of_isFree (free s List.mem_cons_self), others, List.map_cons]

/-- The first visitor that cannot join turns away those before it, and nobody else. -/
theorem attachAll_of_taken (free : ∀ s ∈ before, s.IsFree) (taken : ¬ s.IsFree) :
    attachAll (before ++ s :: later) =
      (before.map (·.joined.detach) ++ s :: later, .error .attachedTwice) := by
  induction before with
  | nil => simp only [List.nil_append, attachAll, attach_of_not_isFree taken, List.map_nil]
  | cons first before ih =>
    have others := ih fun s' hs' => free s' (List.mem_cons_of_mem _ hs')
    simp only [List.cons_append, attachAll, attach_of_isFree (free first List.mem_cons_self), others,
      List.map_cons]

/-- Either all of a row are free, or there is a first one that is not. -/
theorem all_free_or_first_taken (seats : List (Seat α δ σ ε)) :
    (∀ s ∈ seats, s.IsFree) ∨ ∃ before s later, seats = before ++ s :: later ∧
      (∀ s ∈ before, s.IsFree) ∧ ¬ s.IsFree := by
  induction seats with
  | nil => exact .inl nofun
  | cons s seats ih =>
    by_cases free : s.IsFree
    · rcases ih with all | ⟨before, s', later, rfl, all, taken⟩
      · exact .inl (List.forall_mem_cons.2 ⟨free, all⟩)
      · exact .inr ⟨s :: before, s', later, rfl, List.forall_mem_cons.2 ⟨free, all⟩, taken⟩
    · exact .inr ⟨[], s, seats, rfl, nofun, free⟩

end Seat

/-- A walk that a visitor cannot join is no walk: those before it have joined and left again. -/
theorem walk_of_taken {before later : List (Seat α δ σ ε)} {s : Seat α δ σ ε} (t : Tree α)
    (free : ∀ s ∈ before, s.IsFree) (taken : ¬ s.IsFree) :
    walk t (before ++ s :: later) =
      (before.map (·.joined.detach) ++ s :: later, [], .error (.misuse .attachedTwice)) := by
  simp only [walk, Seat.attachAll_of_taken free taken]

/-- A walk that everybody can join. -/
theorem walk_of_free {seats : List (Seat α δ σ ε)} (t : Tree α) (free : ∀ s ∈ seats, s.IsFree) :
    walk t seats =
      match Stage.walkAttached t ⟨seats.map Seat.joined, []⟩ with
      | .ok outcome st => (st.seats.map (·.detach), st.reports, .ok outcome)
      | .error e st => (st.seats.map (·.detach), st.reports, .error e) := by
  unfold walk
  split
  next refused =>
    rw [Seat.attachAll_of_free free] at refused
    cases refused
  next joined =>
    rw [Seat.attachAll_of_free free] at joined
    cases joined
    rfl

end GraphQL
