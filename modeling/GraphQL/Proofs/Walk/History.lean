import GraphQL.Proofs.Walk.Script

/-! Histories: what becomes of a coordination can be read off what its visitor went through. Moments
that fit, one after the other, keep a coordination sound: its data are those of the nodes that the
visitor is below. -/
namespace GraphQL

open Coordination (Request)

variable {α δ : Type}

/-- The nodes that a visitor is below, the newest first: it has decided to visit their children, and
has not come back from there. -/
structure Ledger (α : Type) where
  entered : List (Tree α)
  /-- The node of the present visit, while nothing is decided. -/
  undecided : Option (Tree α)

namespace Moment

/-- What a moment means for a coordination. -/
def replay : Moment α δ → Coordination δ → Coordination δ
  | begun _ _ => Coordination.after Coordination.beginDispatch
  | ended => Coordination.after Coordination.finishDispatch
  | back _ _ => Coordination.after Coordination.finishChildren
  | asked request _ => Coordination.after request.make
  | looked _ | failed _ => id

/-- What a moment means for the ledger. Without a decision a visit ends with the children to be
visited. -/
def enter : Moment α δ → Ledger α → Ledger α
  | begun t _, l => ⟨l.entered, some t⟩
  | ended, l => ⟨l.undecided.toList ++ l.entered, none⟩
  | back _ _, l => ⟨l.entered.tail, l.undecided⟩
  | asked request (.ok _), l =>
    ⟨if request.visits then l.undecided.toList ++ l.entered else l.entered, none⟩
  | _, l => l

end Moment

/-- What is known of a visitor: its coordination, and where it has entered. -/
structure Account (α δ : Type) where
  coordination : Coordination δ
  ledger : Ledger α

/-- Moments after which a coordination is in order. -/
def Moment.Fits (a : Account α δ) : Moment α δ → Prop
  | begun _ data => a.coordination.state = .initial ∧ a.coordination.data.head? = some data
  | ended => a.coordination.state ≠ .initial ∧ a.coordination.state ≠ .completed
  | back t data =>
    a.coordination.state = .initial ∧ a.ledger.entered.head? = some t ∧
      a.coordination.data.tail.head? = some data
  | looked c => c = a.coordination
  | asked request answer =>
    answer = if a.coordination.state = .undecided then .ok () else
      .error (.decision request.decision a.coordination.state)
  | failed _ => True

namespace Account

/-- A visitor that has just joined a walk. -/
def joined (data : δ) : Account α δ := ⟨⟨.initial, true, [data]⟩, ⟨[], none⟩⟩

/-- An account with a moment more. -/
def record (a : Account α δ) (m : Moment α δ) : Account α δ :=
  ⟨m.replay a.coordination, m.enter a.ledger⟩

/-- An account with more moments. -/
def after (a : Account α δ) (h : List (Moment α δ)) : Account α δ := h.foldl record a

/-- Moments that fit, one after the other. -/
def Orderly : Account α δ → List (Moment α δ) → Prop
  | _, [] => True
  | a, m :: h => m.Fits a ∧ (a.record m).Orderly h

variable {a : Account α δ} {m : Moment α δ} {h h' : List (Moment α δ)} {data : δ}

@[simp] theorem after_nil : a.after [] = a := rfl

@[simp] theorem after_cons : a.after (m :: h) = (a.record m).after h := rfl

@[simp] theorem after_append : a.after (h ++ h') = (a.after h).after h' := List.foldl_append

@[simp] theorem orderly_nil : a.Orderly [] := trivial

@[simp] theorem orderly_cons : a.Orderly (m :: h) ↔ m.Fits a ∧ (a.record m).Orderly h := Iff.rfl

@[simp] theorem orderly_append : a.Orderly (h ++ h') ↔ a.Orderly h ∧ (a.after h).Orderly h' := by
  induction h generalizing a with
  | nil => simp
  | cons m h ih => simp [ih, and_assoc]

/-- A coordination in a walk keeps, above the data of the root, the data for the children of every
node that is entered; a decision is due as long as the visitor has not entered or refused. -/
structure Sound (data : δ) (a : Account α δ) : Prop where
  attached : a.coordination.attached = true
  length : a.coordination.data.length = 1 + a.ledger.entered.length
  bottom : a.coordination.data.getLast? = some data
  undecided : a.ledger.undecided.isSome ↔ a.coordination.state = .undecided
  unfinished : a.coordination.state ≠ .completed

theorem Sound.data_ne_nil (sound : a.Sound data) : a.coordination.data ≠ [] := by
  intro none
  have length := sound.length
  rw [none, List.length_nil] at length
  omega

theorem joined_sound (data : δ) : (joined data : Account α δ).Sound data :=
  ⟨rfl, rfl, rfl, by simp [joined], by simp [joined]⟩

theorem Sound.exists_undecided (sound : a.Sound data)
    (undecided : a.coordination.state = .undecided) :
    ∃ t, a.ledger.undecided = some t :=
  Option.isSome_iff_exists.1 (sound.undecided.2 undecided)

theorem Sound.decided (sound : a.Sound data) (decided : a.coordination.state ≠ .undecided) :
    a.ledger.undecided = none := by
  rw [← Option.not_isSome_iff_eq_none, sound.undecided]
  exact decided

/-- A request that is granted. -/
theorem record_granted (sound : a.Sound data) (undecided : a.coordination.state = .undecided)
    {request : Request δ} {answer : Except Misuse Unit}
    (fits : Moment.Fits a (.asked request answer)) :
    a.record (.asked request answer) = ⟨request.granted a.coordination,
      ⟨if request.visits then a.ledger.undecided.toList ++ a.ledger.entered
        else a.ledger.entered, none⟩⟩ := by
  obtain rfl : answer = .ok () := fits.trans (if_pos undecided)
  simp only [record, Moment.replay, Coordination.after,
    request.make_undecided undecided sound.data_ne_nil, Moment.enter]

/-- A request that is refused changes nothing. -/
theorem record_refused (decided : a.coordination.state ≠ .undecided)
    {request : Request δ} {answer : Except Misuse Unit}
    (fits : Moment.Fits a (.asked request answer)) :
    a.record (.asked request answer) = a := by
  obtain rfl : answer = .error _ := fits.trans (if_neg decided)
  simp only [record, Moment.replay, Coordination.after, request.make_refused decided, Moment.enter]

/-- A visit that is over without a decision. -/
theorem record_ended_undecided (sound : a.Sound data)
    (undecided : a.coordination.state = .undecided) :
    a.record .ended = ⟨⟨.initial, a.coordination.attached,
      a.coordination.data.head?.toList ++ a.coordination.data⟩,
      ⟨a.ledger.undecided.toList ++ a.ledger.entered, none⟩⟩ := by
  obtain ⟨⟨state, attached, _ | ⟨first, rest⟩⟩, ledger⟩ := a
  · exact absurd rfl sound.data_ne_nil
  · cases undecided
    rfl

/-- A visit that is over after a decision. -/
theorem record_ended_decided (sound : a.Sound data) (decided : a.coordination.state ≠ .undecided)
    (fits : Moment.Fits a .ended) :
    a.record .ended = ⟨⟨if a.coordination.state = .aborted then .aborted else .initial,
      a.coordination.attached, a.coordination.data⟩, ⟨a.ledger.entered, none⟩⟩ := by
  have none := sound.decided decided
  obtain ⟨⟨state, attached, data⟩, ⟨entered, undecided⟩⟩ := a
  obtain rfl : undecided = Option.none := none
  cases state with
  | initial => exact absurd rfl fits.1
  | completed => exact absurd rfl fits.2
  | undecided => exact absurd rfl decided
  | _ => rfl

theorem record_begun (sound : a.Sound data) {t : Tree α} {d : δ}
    (fits : Moment.Fits a (.begun t d)) :
    a.record (.begun t d) = ⟨{ a.coordination with state := .undecided },
      ⟨a.ledger.entered, some t⟩⟩ := by
  obtain ⟨initial, -⟩ := fits
  obtain ⟨⟨state, attached, _ | ⟨first, rest⟩⟩, ledger⟩ := a
  · exact absurd rfl sound.data_ne_nil
  · cases initial
    rfl

theorem record_back {t : Tree α} {d : δ} (fits : Moment.Fits a (.back t d)) :
    a.record (.back t d) = ⟨{ a.coordination with data := a.coordination.data.tail },
      ⟨a.ledger.entered.tail, a.ledger.undecided⟩⟩ := by
  obtain ⟨-, -, next⟩ := fits
  obtain ⟨⟨state, attached, _ | ⟨first, _ | ⟨second, rest⟩⟩⟩, ledger⟩ := a
  · simp at next
  · simp at next
  · rfl

/-- A moment that fits keeps a coordination sound. -/
theorem Sound.record (sound : a.Sound data) (fits : m.Fits a) : (a.record m).Sound data := by
  obtain ⟨first, rest, hdata⟩ := List.exists_cons_of_ne_nil sound.data_ne_nil
  have length := sound.length
  have bottom := sound.bottom
  rw [hdata] at length bottom
  cases m with
  | looked c => exact sound
  | failed e => exact sound
  | begun t d =>
    rw [record_begun sound fits]
    exact ⟨sound.attached, sound.length, sound.bottom, by simp, by simp⟩
  | back t d =>
    rw [record_back fits]
    obtain ⟨initial, entered, next⟩ := fits
    rw [hdata] at next
    obtain ⟨rest', rfl⟩ := List.head?_eq_some_iff.1 next
    obtain ⟨above, hentered⟩ := List.head?_eq_some_iff.1 entered
    rw [hentered] at length
    refine ⟨sound.attached, ?_, ?_, sound.undecided, sound.unfinished⟩
    · simpa [hdata, hentered, Nat.add_comm] using length
    · simpa [hdata] using bottom
  | ended =>
    by_cases undecided : a.coordination.state = .undecided
    · rw [record_ended_undecided sound undecided]
      obtain ⟨t, ht⟩ := sound.exists_undecided undecided
      refine ⟨sound.attached, ?_, ?_, by simp, by simp⟩
      · simpa [hdata, ht, Nat.add_comm] using length
      · simpa [hdata] using bottom
    · rw [record_ended_decided sound undecided fits]
      refine ⟨sound.attached, sound.length, sound.bottom, ?_, ?_⟩ <;> dsimp only <;> split <;> simp
  | asked request answer =>
    by_cases undecided : a.coordination.state = .undecided
    · rw [record_granted sound undecided fits]
      obtain ⟨t, ht⟩ := sound.exists_undecided undecided
      cases request with
      | abort | skip => exact ⟨sound.attached, sound.length, sound.bottom, by simp [Request.granted],
          by simp [Request.granted]⟩
      | visit | visitWith =>
        refine ⟨sound.attached, ?_, ?_, by simp [Request.granted], by simp [Request.granted]⟩
        · simpa [Request.granted, Request.visits, hdata, ht, Nat.add_comm] using length
        · simpa [Request.granted, hdata] using bottom
    · rw [record_refused undecided fits]
      exact sound

/-- So do moments that fit one after the other. -/
theorem Sound.after (sound : a.Sound data) (orderly : a.Orderly h) : (a.after h).Sound data := by
  induction h generalizing a with
  | nil => exact sound
  | cons m h ih => exact ih (sound.record orderly.1) orderly.2

/-! What a decision means for the rest of a visit. -/

/-- Within a script, once a decision is taken nothing changes. -/
theorem after_inner (decided : a.coordination.state ≠ .undecided) (inner : ∀ m ∈ h, m.IsInner)
    (orderly : a.Orderly h) : a.after h = a := by
  induction h with
  | nil => rfl
  | cons m h ih =>
    have same : a.record m = a := by
      cases m with
      | looked c => rfl
      | failed e => rfl
      | asked request answer => exact record_refused decided orderly.1
      | begun | ended | back => exact (inner _ List.mem_cons_self).elim
    rw [after_cons, same]
    exact ih (fun m hm => inner m (List.mem_cons_of_mem _ hm)) (same ▸ orderly.2)

/-- A visitor is aborted once it has been granted that, and stays so. -/
theorem record_aborted (sound : a.Sound data) (fits : m.Fits a) :
    (a.record m).coordination.state = .aborted ↔
      a.coordination.state = .aborted ∨ m = .asked .abort (.ok ()) := by
  cases m with
  | looked c => simp [record, Moment.replay]
  | failed e => simp [record, Moment.replay]
  | begun t d => simp [record_begun sound fits, fits.1]
  | back t d => simp [record_back fits]
  | ended =>
    by_cases undecided : a.coordination.state = .undecided
    · simp [record_ended_undecided sound undecided, undecided]
    · simp [record_ended_decided sound undecided fits]
  | asked request answer =>
    by_cases undecided : a.coordination.state = .undecided
    · rw [record_granted sound undecided fits]
      obtain rfl : answer = .ok () := fits.trans (if_pos undecided)
      cases request <;> simp [Request.granted, undecided]
    · rw [record_refused undecided fits]
      obtain rfl : answer = .error _ := fits.trans (if_neg undecided)
      simp

theorem after_aborted (sound : a.Sound data) (orderly : a.Orderly h) :
    (a.after h).coordination.state = .aborted ↔
      a.coordination.state = .aborted ∨ .asked .abort (.ok ()) ∈ h := by
  induction h generalizing a with
  | nil => simp
  | cons m h ih =>
    rw [after_cons, ih (sound.record orderly.1) orderly.2, record_aborted sound orderly.1,
      List.mem_cons, or_assoc, eq_comm (a := m)]

/-- Where a visitor has been granted to give up, it does not hear from the walk again. -/
theorem no_call_of_aborted (sound : a.Sound data) (aborted : a.coordination.state = .aborted)
    (orderly : a.Orderly h) : ∀ m ∈ h, ¬ m.IsCall := by
  induction h generalizing a with
  | nil => simp
  | cons m h ih =>
    intro m' hm'
    rcases List.mem_cons.1 hm' with rfl | hm'
    · cases m' with
      | begun => simp [Moment.Fits, aborted] at orderly
      | back => simp [Moment.Fits, aborted] at orderly
      | _ => exact id
    · exact ih (sound.record orderly.1) ((record_aborted sound orderly.1).2 (.inl aborted))
        orderly.2 m' hm'

/-- Until the next visit begins, no decision is due after one has been taken. -/
theorem record_decided (sound : a.Sound data) (decided : a.coordination.state ≠ .undecided)
    (fits : m.Fits a) (within : ∀ t d, m ≠ .begun t d) :
    (a.record m).coordination.state ≠ .undecided := by
  cases m with
  | looked c => exact decided
  | failed e => exact decided
  | begun t d => exact absurd rfl (within t d)
  | back t d => rw [record_back fits]; exact decided
  | ended =>
    rw [record_ended_decided sound decided fits]
    dsimp only
    split <;> simp
  | asked request answer => rw [record_refused decided fits]; exact decided

theorem exists_begun (sound : a.Sound data) (decided : a.coordination.state ≠ .undecided)
    (orderly : a.Orderly h) (undecided : (a.after h).coordination.state = .undecided) :
    ∃ t d, .begun t d ∈ h := by
  induction h generalizing a with
  | nil => exact absurd undecided decided
  | cons m h ih =>
    cases m with
    | begun t d => exact ⟨t, d, List.mem_cons_self⟩
    | _ =>
      obtain ⟨t, d, hd⟩ := ih (sound.record orderly.1)
        (record_decided sound decided orderly.1 (by simp)) orderly.2 undecided
      exact ⟨t, d, List.mem_cons_of_mem _ hd⟩

/-- Between two decisions that are granted, a visit begins. -/
theorem begun_between (sound : a.Sound data) {before between later : List (Moment α δ)}
    {first second : Request δ}
    (orderly : a.Orderly
      (before ++ .asked first (.ok ()) :: between ++ .asked second (.ok ()) :: later)) :
    ∃ t d, .begun t d ∈ between := by
  simp only [List.append_assoc, List.cons_append, orderly_append, orderly_cons] at orderly
  obtain ⟨hbefore, hfirst, hbetween, hsecond, -⟩ := orderly
  have granted {b : Account α δ} {r : Request δ} (fits : Moment.Fits b (.asked r (.ok ()))) :
      b.coordination.state = .undecided := by
    refine Decidable.byContradiction fun decided => ?_
    simp [Moment.Fits, decided] at fits
  have sound' := sound.after hbefore
  refine exists_begun (sound'.record hfirst) ?_ hbetween (granted hsecond)
  rw [record_granted sound' (granted hfirst) hfirst]
  cases first <;> simp [Request.granted]

end Account
end GraphQL
