import GraphQL.Proofs.Walk.Attachment
import GraphQL.Proofs.Walk.History

/-! The steps of one visitor in a walk: what it goes through in a visit and in a return fits,
whatever its scripts do, and its seat shows where it stands. -/
namespace GraphQL

open Coordination (Request)

variable {ι α δ σ β : Type}

/-! ### One visitor -/

namespace Account

variable {a : Account α δ} {h : List (Moment α δ)} {data : δ}

/-- Within the script of a visit, either nothing is decided or one request is granted. -/
theorem after_inner_undecided (sound : a.Sound data) (undecided : a.coordination.state = .undecided)
    (inner : ∀ m ∈ h, m.IsInner) (orderly : a.Orderly h) :
    a.after h = a ∨ ∃ request : Request δ, a.after h = ⟨request.granted a.coordination,
      ⟨if request.visits then a.ledger.undecided.toList ++ a.ledger.entered
        else a.ledger.entered, none⟩⟩ := by
  induction h with
  | nil => exact .inl rfl
  | cons m h ih =>
    have inner' : ∀ m ∈ h, m.IsInner := fun m hm => inner m (List.mem_cons_of_mem _ hm)
    cases m with
    | looked c => exact ih inner' orderly.2
    | failed e => exact ih inner' orderly.2
    | begun | ended | back => exact (inner _ List.mem_cons_self).elim
    | asked request answer =>
      have granted := record_granted sound undecided orderly.1
      refine .inr ⟨request, ?_⟩
      rw [after_cons, after_inner _ inner' orderly.2, granted]
      rw [granted]
      cases request <;> simp [Request.granted]

/-- What a verdict makes of the account that a visit began with. -/
def Reaches (t : Tree α) (entered : List (Tree α)) (a : Account α δ) : Verdict → Prop
  | .visit => a.coordination.state = .initial ∧ a.ledger.entered = t :: entered
  | .skip => a.coordination.state = .initial ∧ a.ledger.entered = entered
  | .abort => a.coordination.state = .aborted

/-- A visit comes to a verdict. -/
theorem finish_visit (sound : a.Sound data) {t : Tree α} {d : δ} (fits : Moment.Fits a (.begun t d))
    (inner : ∀ m ∈ h, m.IsInner) (orderly : (a.record (.begun t d)).Orderly h) :
    ∃ verdict, Coordination.finishDispatch (a.after (.begun t d :: h)).coordination =
        .ok verdict ((a.after (.begun t d :: h)).record .ended).coordination ∧
      Moment.Fits (a.after (.begun t d :: h)) .ended ∧
      ((a.after (.begun t d :: h)).record .ended).Reaches t a.ledger.entered verdict := by
  have began := record_begun sound fits
  have undecided : (a.record (.begun t d)).coordination.state = .undecided := by rw [began]
  have cases := after_inner_undecided (sound.record fits) undecided inner orderly
  rw [after_cons]
  obtain ⟨⟨state, attached, _ | ⟨first, rest⟩⟩, ledger⟩ := a
  · exact absurd rfl sound.data_ne_nil
  rw [began] at cases ⊢
  rcases cases with same | ⟨request, granted⟩
  · rw [same]
    exact ⟨.visit, rfl, by simp [Moment.Fits], rfl, rfl⟩
  · rw [granted]
    cases request with
    | abort => exact ⟨.abort, rfl, by simp [Moment.Fits, Request.granted], rfl⟩
    | skip => exact ⟨.skip, rfl, by simp [Moment.Fits, Request.granted], rfl, rfl⟩
    | visit | visitWith => exact ⟨.visit, rfl, by simp [Moment.Fits, Request.granted], rfl, rfl⟩

end Account

/-- The end of an action: as it should be, or by an interruption. -/
def VisitM.ending {ε : Type} (p : Performance δ σ ε) :
    Option Interruption → EStateM.Result Interruption (Performance δ σ ε) Unit
  | none => .ok () p
  | some e => .error e p

/-- A request is answered, and what follows depends on the answer. -/
theorem Script.run_ask (request : Request δ) (next : Except Misuse Unit → Script δ σ) (tag : ι)
    {data : δ} {a : Account α δ} (sound : a.Sound data) (own : σ)
    (reports : List (ι × Moment α δ)) :
    ∃ answer, Moment.Fits a (.asked request answer) ∧
      (ask request next).run tag ⟨⟨a.coordination, own⟩, reports⟩ =
        (next answer).run tag ⟨⟨(a.record (.asked request answer)).coordination, own⟩,
          reports ++ [(tag, .asked request answer)]⟩ ∧
      ((ask request next).Settles a.coordination ↔
        (next answer).Settles (a.record (.asked request answer)).coordination) := by
  by_cases undecided : a.coordination.state = .undecided
  · have made := request.make_undecided undecided sound.data_ne_nil
    refine ⟨.ok (), if_pos undecided |>.symm, ?_, ?_⟩
    · simp only [run, bind, EStateM.bind, VisitM.attempt, made, Account.record, Moment.replay,
        Coordination.after]
      rfl
    · simp only [Settles, made, Account.record, Moment.replay, Coordination.after]
  · have made := request.make_refused undecided
    refine ⟨.error _, if_neg undecided |>.symm, ?_, ?_⟩
    · simp only [run, bind, EStateM.bind, VisitM.attempt, made, Account.record, Moment.replay,
        Coordination.after]
      rfl
    · simp only [Settles, made, Account.record, Moment.replay, Coordination.after]

/-- A history of a failure, which is the last thing that happens, or of none. -/
def Tells (h : List (Moment α δ)) : Option Interruption → Prop
  | none => ∀ e, .failed e ∉ h
  | some e => h.getLast? = some (.failed e)

theorem Tells.cons {h : List (Moment α δ)} {failure : Option Interruption} (tells : Tells h failure)
    {m : Moment α δ} (other : ∀ e, m ≠ .failed e) : Tells (m :: h) failure := by
  cases failure with
  | none => exact fun e he => (List.mem_cons.1 he).elim (fun eq => other e eq.symm) (tells e)
  | some e =>
    rw [Tells] at tells
    rw [Tells, List.getLast?_cons, tells]
    rfl

/-- A script goes through moments that fit, and fails at the last of them if it does not settle. -/
theorem Script.run_moments (x : Script δ σ) (tag : ι) {data : δ} {a : Account α δ}
    (sound : a.Sound data) (own : σ) (reports : List (ι × Moment α δ)) :
    ∃ (h : List (Moment α δ)) (own' : σ) (failure : Option Interruption),
      x.run tag ⟨⟨a.coordination, own⟩, reports⟩ =
        VisitM.ending ⟨⟨(a.after h).coordination, own'⟩, reports ++ h.map (tag, ·)⟩ failure ∧
      a.Orderly h ∧ (∀ m ∈ h, m.IsInner) ∧ (failure = none ↔ x.Settles a.coordination) ∧
      Tells h failure := by
  induction x generalizing a own reports with
  | done =>
    refine ⟨[], own, none, ?_, trivial, by simp, by simp [Settles], by simp [Tells]⟩
    rw [List.map_nil, List.append_nil]
    rfl
  | fail e =>
    refine ⟨[.failed e], own, some e, rfl, ⟨trivial, trivial⟩, ?_, by simp [Settles], rfl⟩
    simp [Moment.IsInner]
  | put own' next ih => exact ih sound own' reports
  | look next ih =>
    obtain ⟨h, own', failure, ran, orderly, inner, settles, tells⟩ := ih a.coordination sound own
      (reports ++ [(tag, .looked a.coordination)])
    refine ⟨.looked a.coordination :: h, own', failure, ?_, ⟨rfl, orderly⟩, ?_, settles,
      tells.cons (by simp)⟩
    · rw [List.map_cons, List.append_cons]
      exact ran
    · simpa [Moment.IsInner] using inner
  | ask request next ih =>
    obtain ⟨answer, fits, asked, settles⟩ := run_ask request next tag sound own reports
    obtain ⟨h, own', failure, ran, orderly, inner, settles', tells⟩ := ih answer
      (sound.record fits) own (reports ++ [(tag, .asked request answer)])
    refine ⟨.asked request answer :: h, own', failure, ?_, ⟨fits, orderly⟩, ?_,
      settles'.trans settles.symm, tells.cons (by simp)⟩
    · rw [List.map_cons, List.append_cons, asked]
      exact ran
    · simpa [Moment.IsInner] using inner

/-! ### One seat -/

/-- The step of a visitor at its seat, from one account to another. It ends well, or with a failure
of the visitor's own, which a steady actor does not have. -/
structure Actor.Recounts (x : Actor α δ σ) (a : Account α δ) (h : List (Moment α δ))
    (failure : Option Interruption) : Prop where
  orderly : a.Orderly h
  tells : Tells h failure
  steady : x.Steady → failure = none

namespace Actor

variable {x : Actor α δ σ} {data : δ} {a : Account α δ}

theorem dispatch_eq (x : Actor α δ σ) (tag : ι) (t : Tree α) {c c' : Coordination δ} {first : δ}
    (began : Coordination.beginDispatch c = .ok first c') (own : σ) :
    Seat.dispatch (x.recorded tag) t ⟨⟨c, own⟩, []⟩ =
      match (x.visit t first own).run tag ⟨⟨c', own⟩, [(tag, .begun t first)]⟩ with
      | .ok _ p => VisitM.coordinate Coordination.finishDispatch
          ⟨p.performer, p.reports ++ [(tag, .ended)]⟩
      | .error e p => .error e p := by
  have visited : (x.recorded tag).visit t first ⟨⟨c', own⟩, []⟩ =
      ((x.visit t first own).run tag >>= fun _ => VisitM.report (tag, .ended))
        ⟨⟨c', own⟩, [(tag, .begun t first)]⟩ := rfl
  simp only [Seat.dispatch, bind, EStateM.bind, VisitM.coordinate, began, visited]
  cases (x.visit t first own).run tag ⟨⟨c', own⟩, [(tag, .begun t first)]⟩ <;> rfl

/-- A visit, from its beginning to its verdict. -/
theorem dispatch_moments (x : Actor α δ σ) (tag : ι) (t : Tree α) (sound : a.Sound data)
    (initial : a.coordination.state = .initial) (own : σ) :
    ∃ (h : List (Moment α δ)) (own' : σ) (failure : Option Interruption), x.Recounts a h failure ∧
      match failure with
      | none => ∃ verdict, Seat.dispatch (x.recorded tag) t ⟨⟨a.coordination, own⟩, []⟩ =
          .ok verdict ⟨⟨(a.after h).coordination, own'⟩, h.map (tag, ·)⟩ ∧
          (a.after h).Reaches t a.ledger.entered verdict
      | some e => Seat.dispatch (x.recorded tag) t ⟨⟨a.coordination, own⟩, []⟩ =
          .error e ⟨⟨(a.after h).coordination, own'⟩, h.map (tag, ·)⟩ := by
  obtain ⟨first, rest, hdata⟩ := List.exists_cons_of_ne_nil sound.data_ne_nil
  have fits : Moment.Fits a (.begun t first) := ⟨initial, by rw [hdata]; rfl⟩
  have began : Coordination.beginDispatch a.coordination =
      .ok first (a.record (.begun t first)).coordination := by
    obtain ⟨⟨state, attached, data⟩, ledger⟩ := a
    cases initial
    cases hdata
    rfl
  obtain ⟨h, own', failure, ran, orderly, inner, settles, tells⟩ :=
    (x.visit t first own).run_moments tag (sound.record fits) own [(tag, .begun t first)]
  have steady : x.Steady → failure = none := by
    refine fun steady => settles.2 ((steady t first own _ ?_).1 ?_)
    · exact (sound.record fits).data_ne_nil
    · rw [Account.record_begun sound fits]
  cases failure with
  | none =>
    obtain ⟨verdict, finished, ended, reaches⟩ := Account.finish_visit sound fits inner orderly
    refine ⟨.begun t first :: h ++ [.ended], own', none, ⟨?_, ?_, fun _ => rfl⟩, verdict, ?_, ?_⟩
    · rw [Account.orderly_append]
      exact ⟨⟨fits, orderly⟩, ended, trivial⟩
    · simpa [Tells] using tells
    · rw [Account.after_append, Account.after_cons, Account.after_nil]
      rw [Account.after_cons] at finished
      rw [dispatch_eq x tag t began, ran]
      simp [VisitM.ending, VisitM.coordinate, finished]
    · rw [Account.after_append]
      exact reaches
  | some e =>
    refine ⟨.begun t first :: h, own', some e, ⟨⟨fits, orderly⟩, tells.cons (by simp), steady⟩, ?_⟩
    rw [dispatch_eq x tag t began, ran]
    simp [VisitM.ending]

/-- A return, from the children of a node. -/
theorem comeBack_moments (x : Actor α δ σ) (tag : ι) (sound : a.Sound data)
    (initial : a.coordination.state = .initial) {t : Tree α} {above : List (Tree α)}
    (entered : a.ledger.entered = t :: above) (own : σ) :
    ∃ (h : List (Moment α δ)) (own' : σ) (failure : Option Interruption), x.Recounts a h failure ∧
      Seat.comeBack (x.recorded tag) t ⟨⟨a.coordination, own⟩, []⟩ =
        VisitM.ending ⟨⟨(a.after h).coordination, own'⟩, h.map (tag, ·)⟩ failure ∧
      (a.after h).coordination.state = .initial ∧ (a.after h).ledger.entered = above := by
  obtain ⟨first, below, hdata⟩ := List.exists_cons_of_ne_nil sound.data_ne_nil
  have length := sound.length
  rw [hdata, entered, List.length_cons, List.length_cons] at length
  obtain ⟨second, rest, rfl⟩ := List.exists_cons_of_length_pos (l := below) (by omega)
  have fits : Moment.Fits a (.back t second) := by
    refine ⟨initial, ?_, ?_⟩
    · rw [entered]; rfl
    · rw [hdata]; rfl
  have back := Account.record_back fits
  have finished : Coordination.finishChildren a.coordination =
      .ok second (a.record (.back t second)).coordination := by
    obtain ⟨⟨state, attached, data⟩, ledger⟩ := a
    cases hdata
    rfl
  obtain ⟨h, own', failure, ran, orderly, inner, settles, tells⟩ :=
    (x.leave t second own).run_moments tag (sound.record fits) own [(tag, .back t second)]
  have initial' : (a.record (.back t second)).coordination.state = .initial := by
    rw [back]
    exact initial
  have same := Account.after_inner (by rw [initial']; simp) inner orderly
  refine ⟨.back t second :: h, own', failure,
    ⟨⟨fits, orderly⟩, tells.cons (by simp), fun steady => ?_⟩, ?_, ?_, ?_⟩
  · exact settles.2 ((steady t second own _ (sound.record fits).data_ne_nil).2 initial')
  · simp only [Seat.comeBack, recorded, bind, EStateM.bind, VisitM.coordinate, finished]
    exact ran
  · rw [Account.after_cons, same, initial']
  · rw [Account.after_cons, same, back, entered]
    rfl

/-- A seat shows the account of its actor, who has gone through some moments since it joined. -/
structure Keeps (x : Actor α δ σ) (tag : ι) (data : δ) (s : Seat α δ σ (ι × Moment α δ))
    (h : List (Moment α δ)) : Prop where
  visitor : s.visitor = x.recorded tag
  orderly : (Account.joined data).Orderly h
  coordination : s.performer.coordination = ((Account.joined data).after h).coordination

end Actor

/-- A seat at rest below a path, the newest node first: its visitor has given up, or it has entered
all nodes of the path, or those above the one that it skips. -/
def Seat.Stands {ε : Type} (path : List (Tree α)) (s : Seat α δ σ ε) (a : Account α δ) : Prop :=
  if s.aborted then a.coordination.state = .aborted
  else a.coordination.state = .initial ∧
    match s.skippingBelow with
    | none => a.ledger.entered = path
    | some d => d < path.length ∧ a.ledger.entered = path.drop (path.length - d)

namespace Actor

/-- A seat at rest shows where its actor stands, too. Its actor has not failed. -/
structure Rests (x : Actor α δ σ) (tag : ι) (data : δ) (path : List (Tree α))
    (s : Seat α δ σ (ι × Moment α δ)) (h : List (Moment α δ)) : Prop
    extends x.Keeps tag data s h where
  stands : s.Stands path ((Account.joined data).after h)
  calm : ∀ e, .failed e ∉ h

/-- A step of a seat keeps the account of its actor. If it comes to its end the seat is at rest
again, and otherwise the actor has failed, and is not steady. -/
def Takes (x : Actor α δ σ) (tag : ι) (data : δ) (path : List (Tree α))
    (step : Seat.Step α δ σ (ι × Moment α δ)) (s : Seat α δ σ (ι × Moment α δ))
    (h : List (Moment α δ)) : Prop :=
  ∃ s' h' result, step s = (s', h'.map (tag, ·), result) ∧ x.Keeps tag data s' (h ++ h') ∧
    (result = .ok () → x.Rests tag data path s' (h ++ h')) ∧
    ∀ e, result = .error e → h'.getLast? = some (.failed e) ∧ ¬ x.Steady

variable {x : Actor α δ σ} {tag : ι} {data : δ} {path : List (Tree α)}
  {s : Seat α δ σ (ι × Moment α δ)} {h : List (Moment α δ)}

theorem Keeps.sound (keeps : x.Keeps tag data s h) : ((Account.joined data).after h).Sound data :=
  (Account.joined_sound data).after keeps.orderly

/-- Who has given up stands anywhere. -/
theorem Rests.of_aborted (rests : x.Rests tag data path s h) (aborted : s.aborted)
    (path' : List (Tree α)) : x.Rests tag data path' s h := by
  refine ⟨rests.toKeeps, ?_, rests.calm⟩
  have stands := rests.stands
  rw [Seat.Stands, if_pos aborted] at stands ⊢
  exact stands

theorem takes_of_stay {step : Seat.Step α δ σ (ι × Moment α δ)}
    (s' : Seat α δ σ (ι × Moment α δ)) (stay : step s = (s', [], .ok ()))
    (rests : x.Rests tag data path s' h) : x.Takes tag data path step s h := by
  rw [← List.append_nil h] at rests
  exact ⟨s', [], .ok (), stay, rests.toKeeps, fun _ => rests, nofun⟩

/-- A seat after a step that its actor recounts. -/
theorem keeps_append (tag : ι) (own : σ) (aborted : Bool) (skippingBelow : Option Nat)
    {h' : List (Moment α δ)} {failure : Option Interruption}
    (orderly : (Account.joined data).Orderly h)
    (recounts : x.Recounts ((Account.joined data).after h) h' failure) :
    x.Keeps tag data ⟨x.recorded tag,
      ⟨(((Account.joined data).after h).after h').coordination, own⟩, aborted, skippingBelow⟩
      (h ++ h') :=
  ⟨rfl, Account.orderly_append.2 ⟨orderly, recounts.orderly⟩, by rw [Account.after_append]⟩

theorem Recounts.calm_append {a : Account α δ} {h' : List (Moment α δ)}
    (recounts : x.Recounts a h' none) (calm : ∀ e, .failed e ∉ h) : ∀ e, .failed e ∉ h ++ h' :=
  fun e he => (List.mem_append.1 he).elim (calm e) (recounts.tells e)

theorem Recounts.last_of_error {a : Account α δ} {h' : List (Moment α δ)} {e : Interruption}
    (recounts : x.Recounts a h' (some e)) :
    ∀ e', (.error e : Except Interruption Unit) = .error e' →
      h'.getLast? = some (.failed e') ∧ ¬ x.Steady := by
  rintro e' ⟨⟩
  exact ⟨recounts.tells, fun steady => nomatch recounts.steady steady⟩

/-- Before the children of a node, a seat comes to rest below it. -/
theorem Rests.enter (rests : x.Rests tag data path s h) (t : Tree α) :
    x.Takes tag data (t :: path) (Seat.enter t path.length) s h := by
  obtain ⟨visitor, ⟨coordination, own⟩, aborted, skippingBelow⟩ := s
  cases aborted with
  | true => exact takes_of_stay _ rfl (rests.of_aborted rfl (t :: path))
  | false =>
    cases skippingBelow with
    | some d =>
      obtain ⟨keeps, ⟨initial, above, entered⟩, calm⟩ := rests
      refine takes_of_stay _ rfl ⟨keeps, ⟨initial, Nat.lt_succ_of_lt above, ?_⟩, calm⟩
      rw [entered, List.length_cons, Nat.succ_sub (Nat.le_of_lt above), List.drop_succ_cons]
    | none =>
      have sound := rests.sound
      obtain ⟨⟨rfl, orderly, rfl⟩, ⟨initial, entered⟩, calm⟩ := rests
      obtain ⟨h', own', failure, recounts, dispatched⟩ :=
        x.dispatch_moments tag t sound initial own
      cases failure with
      | none =>
        obtain ⟨verdict, performed, reaches⟩ := dispatched
        rw [show _ = path from entered, ← Account.after_append] at reaches
        have calm' := recounts.calm_append calm
        have keeps aborted skippingBelow :=
          keeps_append tag own' aborted skippingBelow orderly recounts
        cases verdict with
        | visit =>
          refine ⟨⟨_, ⟨_, own'⟩, false, none⟩, h', .ok (), ?_, keeps _ _,
            fun _ => ⟨keeps _ _, reaches, calm'⟩, nofun⟩
          simp [Seat.enter, Seat.isListening, Seat.perform, performed]
        | skip =>
          refine ⟨⟨_, ⟨_, own'⟩, false, some path.length⟩, h', .ok (), ?_, keeps _ _,
            fun _ => ⟨keeps _ _, ⟨reaches.1, Nat.lt_succ_self _, ?_⟩, calm'⟩, nofun⟩
          · simp [Seat.enter, Seat.isListening, Seat.perform, performed]
          · simpa using reaches.2
        | abort =>
          refine ⟨⟨_, ⟨_, own'⟩, true, none⟩, h', .ok (), ?_, keeps _ _,
            fun _ => ⟨keeps _ _, reaches, calm'⟩, nofun⟩
          simp [Seat.enter, Seat.isListening, Seat.perform, performed]
      | some e =>
        refine ⟨⟨_, ⟨_, own'⟩, false, none⟩, h', .error e, ?_,
          keeps_append _ _ _ _ orderly recounts, nofun, recounts.last_of_error⟩
        simp [Seat.enter, Seat.isListening, Seat.perform, dispatched]

/-- After the children of a node, a seat comes to rest above it. -/
theorem Rests.leave {t : Tree α} (rests : x.Rests tag data (t :: path) s h) :
    x.Takes tag data path (Seat.leave t path.length) s h := by
  obtain ⟨visitor, ⟨coordination, own⟩, aborted, skippingBelow⟩ := s
  cases aborted with
  | true => exact takes_of_stay _ rfl (rests.of_aborted rfl path)
  | false =>
    cases skippingBelow with
    | some d =>
      obtain ⟨keeps, ⟨initial, above, entered⟩, calm⟩ := rests
      by_cases here : d = path.length
      · subst here
        refine takes_of_stay ⟨visitor, ⟨coordination, own⟩, false, none⟩ ?_
          ⟨⟨keeps.visitor, keeps.orderly, keeps.coordination⟩, ⟨initial, ?_⟩, calm⟩
        · simp [Seat.leave]
        · simpa using entered
      · refine takes_of_stay ⟨visitor, ⟨coordination, own⟩, false, some d⟩ ?_
          ⟨keeps, ⟨initial, Nat.lt_of_le_of_ne (Nat.le_of_lt_succ above) here, ?_⟩, calm⟩
        · simp [Seat.leave, here]
        · have below : d < path.length := Nat.lt_of_le_of_ne (Nat.le_of_lt_succ above) here
          rw [entered, List.length_cons, Nat.succ_sub (Nat.le_of_lt below), List.drop_succ_cons]
    | none =>
      have sound := rests.sound
      obtain ⟨⟨rfl, orderly, rfl⟩, ⟨initial, entered⟩, calm⟩ := rests
      obtain ⟨h', own', failure, recounts, came, initial', entered'⟩ :=
        x.comeBack_moments tag sound initial entered own
      rw [← Account.after_append] at initial' entered'
      cases failure with
      | none =>
        have keeps := keeps_append tag own' false none orderly recounts
        refine ⟨⟨_, ⟨_, own'⟩, false, none⟩, h', .ok (), ?_, keeps,
          fun _ => ⟨keeps, ⟨initial', entered'⟩, recounts.calm_append calm⟩, nofun⟩
        simp [Seat.leave, Seat.perform, came, VisitM.ending]
      | some e =>
        refine ⟨⟨_, ⟨_, own'⟩, false, none⟩, h', .error e, ?_,
          keeps_append _ _ _ _ orderly recounts, nofun, recounts.last_of_error⟩
        simp [Seat.leave, Seat.perform, came, VisitM.ending]

end Actor
end GraphQL
