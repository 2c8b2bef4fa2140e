import GraphQL.Proofs.Nesting.Repetition
import GraphQL.Proofs.Rations.Program

/-! Rations that last. With a ration of as many rounds as there are tokens left, a parser does what it does
without one, because each round of a loop takes a token. -/
namespace GraphQL

variable {α β : Type} {c : Cursor} {m n : Nat}

namespace Parser

/-- What a parser returns from some place, it returns at a place in the same stream, at least so many
tokens further on. -/
def TakesFrom (least : Nat) (c : Cursor) (q : Parser α) : Prop :=
  ∀ ⦃a c'⦄, q c = .ok (a, c') → c.Reaches c' ∧ c'.pending.length + least ≤ c.pending.length

/-- Wherever a parser returns something, it takes at least so many tokens. -/
def Takes (least : Nat) (q : Parser α) : Prop := ∀ ⦃c⦄, c.Ready → TakesFrom least c q

/-- If `lookahead` tells of more than the end of the input, a token can be taken. -/
theorem lookahead_upcoming {t : Token} {c' : Cursor} (ready : c.Ready)
    (seen : lookahead c = .ok (t, c')) : c' = c ∧ (t.kind ≠ .endOfInput → c.upcoming ≠ []) := by
  unfold lookahead at seen
  split at seen
  · next upcoming =>
    cases seen
    exact ⟨rfl, fun _ => by simp [upcoming]⟩
  · next upcoming =>
    split at seen
    · cases seen
    · next none =>
      cases seen
      exact ⟨rfl, absurd (ready.kind_of_last upcoming none)⟩

namespace TakesFrom

variable {q q' : Parser α} {g : α → Parser β}

theorem congr (h : TakesFrom n c q') (same : q c = q' c) : TakesFrom n c q :=
  fun _ _ ran => h (same ▸ ran)

theorem mono (h : TakesFrom n c q) (le : m ≤ n) : TakesFrom m c q := by
  intro a c' ran
  obtain ⟨reaches, taken⟩ := h ran
  exact ⟨reaches, by omega⟩

theorem fails (h : ∀ r, q c ≠ .ok r) : TakesFrom n c q := fun _ _ ran => absurd ran (h _)

theorem look {f : Cursor → α} : TakesFrom 0 c fun c => .ok (f c, c) := by
  intro a c' ran
  cases ran
  exact ⟨.refl c, Nat.le_refl _⟩

theorem bind (h : TakesFrom m c q)
    (rest : ∀ ⦃a c'⦄, q c = .ok (a, c') → c.Reaches c' → TakesFrom (n - m) c' (g a)) :
    TakesFrom n c (q >>= g) := by
  intro b c₂ ran
  obtain ⟨a, c₁, first, later⟩ := bind_ok.mp ran
  obtain ⟨reaches, taken⟩ := h first
  obtain ⟨onward, more⟩ := rest first reaches later
  exact ⟨reaches.trans onward, by omega⟩

theorem peek_bind {f : Token → Parser α} (rest : TakesFrom n c (f c.current)) :
    TakesFrom n c (peek >>= f) := rest

theorem plain (h : PlainRun c c q) : TakesFrom 0 c q := by
  intro a c' ran
  have reached := h.ahead
  rw [ran] at reached
  exact ⟨reached.1, reached.1.pending.length_le⟩

/-- Any token but the last is taken by itself. -/
theorem consume (ready : c.Ready) (more : c.current.kind ≠ .endOfInput) :
    TakesFrom 1 c Parser.consume := by
  intro t c' ran
  obtain ⟨reaches, -⟩ := plain (Plain.consume c) ran
  have room := consume_makes_room (n := 0) ready more ran
  exact ⟨reaches, by omega⟩

theorem lookahead (ready : c.Ready) : TakesFrom 0 c Parser.lookahead := by
  intro t c' seen
  obtain ⟨rfl, -⟩ := lookahead_upcoming ready seen
  exact ⟨.refl c', Nat.le_refl _⟩

theorem consume_upcoming (ahead : c.upcoming ≠ []) : TakesFrom 1 c Parser.consume := by
  intro t c' ran
  obtain ⟨reaches, -⟩ := plain (Plain.consume c) ran
  obtain ⟨u, us, upcoming⟩ := List.exists_cons_of_ne_nil ahead
  simp only [Parser.consume, upcoming] at ran
  cases ran
  exact ⟨reaches, by simp [Cursor.pending, upcoming]⟩

end TakesFrom

namespace Takes

variable {q q' : Parser α} {g : α → Parser β}

theorem plain (h : Plain q) : Takes 0 q := fun c _ => .plain (h c)

theorem bind (h : Takes m q) (rest : ∀ a, Takes (n - m) (g a)) : Takes n (q >>= g) :=
  fun _ ready => (h ready).bind fun a _ _ reaches => rest a (reaches.ready ready)

theorem ite {b : Prop} [Decidable b] (yes : b → Takes n q) (no : ¬ b → Takes n q') :
    Takes n (if b then q else q') := by
  split
  · next h => exact yes h
  · next h => exact no h

theorem mono (h : Takes n q) (le : m ≤ n) : Takes m q := fun _ ready => (h ready).mono le

theorem look {f : Cursor → α} : Takes 0 fun c => .ok (f c, c) := fun _ _ => .look

theorem pure (a : α) : Takes 0 (pure a : Parser α) := look

theorem lookahead : Takes 0 lookahead := fun _ ready => .lookahead ready

theorem fails (h : ∀ c r, q c ≠ .ok r) : Takes n q := fun c _ => .fails (h c)

theorem expect (mk : Punctuator) : Takes 1 (expect mk) := by
  intro c ready
  refine .bind (m := 0) .look fun b c' ran _ => ?_
  obtain ⟨rfl, rfl⟩ := atMark_ok.mp ran
  split
  · next at_mark =>
    rw [decide_eq_true_eq] at at_mark
    exact .consume ready (by simp [at_mark])
  · exact .fails (by simp)

theorem expectKeyword (word : String) : Takes 1 (expectKeyword word) := by
  intro c ready
  refine .bind (m := 0) .look fun b c' ran _ => ?_
  obtain ⟨rfl, rfl⟩ := atKeyword_ok.mp ran
  split
  · next at_word =>
    rw [TokenKind.isKeyword_iff] at at_word
    exact .consume ready (by simp [at_word])
  · exact .fails (by simp)

theorem name : Takes 1 name := by
  intro c ready
  apply TakesFrom.peek_bind
  split
  · next kind =>
    exact (TakesFrom.consume ready (by simp [kind])).bind fun _ _ _ _ =>
      .bind (m := 0) .look fun _ _ _ _ => .look
  · exact .fails (by simp)

theorem unreservedName (role : ReservingRole) : Takes 1 (unreservedName role) := by
  refine bind (m := 0) look fun t => name.bind fun n => .ite (fun _ => ?_) fun _ => .pure n
  exact bind (m := 0) look fun o => .fails (by simp)

theorem directiveLocation : Takes 1 directiveLocation := by
  refine bind (m := 0) look fun t => name.bind fun n => ?_
  split
  · exact .pure n
  · exact bind (m := 0) look fun o => .fails (by simp)

theorem namedType : Takes 1 namedType := name.bind fun _ => .pure _

theorem variableName : Takes 1 variableName := (expect _).bind fun _ => name.mono (Nat.zero_le 1)

theorem operationKind : Takes 1 operationKind := by
  intro c ready
  apply TakesFrom.peek_bind
  cases kind : c.current.kind with
  | name word =>
    dsimp only
    split
    · exact (TakesFrom.consume ready (by simp [kind])).bind fun _ _ _ _ => .look
    · exact .fails (by simp)
  | _ => exact .fails (by simp)

theorem rootType : Takes 1 rootType :=
  bind (m := 0) look fun _ => operationKind.bind fun _ =>
    bind (m := 1) (expect _) fun _ => bind (m := 1) namedType fun _ =>
      bind (m := 0) look fun _ => .pure _

end Takes

end Parser

namespace Rationed

open GraphQL.Parser

variable {ration : Ration}

/-- A parser with a ration does from some place what another does without one, and this takes so many
tokens at least. -/
structure LastsFrom (ration : Ration) (least : Nat) (c : Cursor) (p : Rationed α) (q : Parser α) :
    Prop where
  same : p ration c = some (q c)
  takes : TakesFrom least c q

/-- So it does from wherever no more tokens are left than it has rounds. -/
def Lasts (ration : Ration) (least : Nat) (p : Rationed α) (q : Parser α) : Prop :=
  ∀ ⦃c⦄, c.Ready → c.pending.length ≤ ration.rounds → LastsFrom ration least c p q

theorem bind_result {p : Rationed α} {f : α → Rationed β} :
    (p >>= f) ration c = match p ration c with
      | none => none
      | some (.error e) => some (.error e)
      | some (.ok (a, c')) => f a ration c' := by
  simp only [bind, ReaderT.bind, StateT.bind, ExceptT.bind, ExceptT.mk, Option.bind]
  match p ration c with
  | none => rfl
  | some (.error e) => rfl
  | some (.ok (a, c')) => rfl

namespace LastsFrom

variable {p : Rationed α} {q q' : Parser α} {f : α → Rationed β} {g : α → Parser β}

theorem peek_bind {f : Token → Rationed β} {g : Token → Parser β}
    (rest : LastsFrom ration n c (f c.current) (g c.current)) :
    LastsFrom ration n c (liftM peek >>= f) (peek >>= g) := ⟨rest.same, rest.takes⟩

theorem congr (h : LastsFrom ration n c p q') (same : q c = q' c) : LastsFrom ration n c p q where
  same := by rw [h.same, same]
  takes := h.takes.congr same

theorem lift (h : TakesFrom n c q) : LastsFrom ration n c (liftM q) q := ⟨rfl, h⟩

theorem bind (h : LastsFrom ration m c p q)
    (rest : ∀ ⦃a c'⦄, q c = .ok (a, c') → c.Reaches c' → LastsFrom ration (n - m) c' (f a) (g a)) :
    LastsFrom ration n c (p >>= f) (q >>= g) where
  same := by
    rw [bind_result, h.same, Parser.bind_result]
    match ran : q c with
    | .error e => rfl
    | .ok (a, c') => exact (rest ran (h.takes ran).1).same
  takes := h.takes.bind fun a c' ran reaches => (rest ran reaches).takes

end LastsFrom

namespace Lasts

variable {p p' : Rationed α} {q q' : Parser α} {f : α → Rationed β} {g : α → Parser β}

theorem lift (h : Takes n q) : Lasts ration n (liftM q) q := fun _ ready _ => .lift (h ready)

protected theorem pure (a : α) : Lasts ration 0 (pure a) (pure a) := fun _ _ _ => ⟨rfl, .look⟩

theorem bind (h : Lasts ration m p q) (rest : ∀ a, Lasts ration (n - m) (f a) (g a)) :
    Lasts ration n (p >>= f) (q >>= g) :=
  fun _ ready fits => (h ready fits).bind fun a _ _ reaches =>
    rest a (reaches.ready ready) (reaches.pending.length_le.trans fits)

theorem less (h : Lasts ration n p q) : Lasts ration (n - 1) p q := by
  intro c ready fits
  obtain ⟨same, takes⟩ := h ready fits
  exact ⟨same, takes.mono (Nat.sub_le n 1)⟩

theorem lift_bind {q : Parser α} (h : Takes m q) (rest : ∀ a, Lasts ration (n - m) (f a) (g a)) :
    Lasts ration n (liftM q >>= f) (q >>= g) := (lift h).bind rest

theorem map {φ : α → β} (h : Lasts ration n p q) : Lasts ration n (φ <$> p) (φ <$> q) := by
  rw [map_eq_pure_bind, map_eq_pure_bind]
  refine h.bind fun a => ?_
  rw [Nat.sub_self]
  exact .pure _

theorem lift_map_bind {q : Parser α} {φ : α → β} {γ : Type} {f : β → Rationed γ} {g : β → Parser γ}
    (h : Takes m q) (rest : ∀ a, Lasts ration (n - m) (f (φ a)) (g (φ a))) :
    Lasts ration n (φ <$> (liftM q : Rationed α) >>= f) (φ <$> q >>= g) := by
  rw [bind_map_left, bind_map_left]
  exact lift_bind h rest

theorem ite {b : Prop} [Decidable b] (yes : b → Lasts ration n p q) (no : ¬ b → Lasts ration n p' q') :
    Lasts ration n (if b then p else p') (if b then q else q') := by
  split
  · next h => exact yes h
  · next h => exact no h

theorem inside (h : Lasts ration n p q) (mk : Punctuator) (o : Origin) :
    Lasts ration n (Parsing.inside mk o p) (Parser.inside mk o q) := by
  intro c ready fits
  obtain ⟨same, takes⟩ := h ready fits
  constructor
  · change Rationed.inside mk o p ration c = _
    unfold Rationed.inside Parser.inside
    rw [same]
    cases q c <;> rfl
  · intro a c' ran
    exact takes (inside_ok.mp ran)

section Levels

variable {rounds levels : Nat}

theorem deeper (h : Lasts ⟨rounds, levels⟩ n p q) : Lasts ⟨rounds, levels + 1⟩ n (nested p) q := by
  intro c ready fits
  obtain ⟨same, takes⟩ := h ready fits
  exact ⟨same, takes⟩

theorem too_deep : Lasts ⟨rounds, 0⟩ n (nested p) tooDeep := fun _ _ _ => ⟨rfl, .fails (by simp)⟩

end Levels

end Lasts

/-- A step of a loop does with a ration what it does without one, and takes a token if it goes on. -/
structure Turns (ration : Ration) (step : Rationed (Option α)) (step' : Parser (Option α)) : Prop where
  lasts : Lasts ration 0 step step'
  takes : ∀ ⦃c a c'⦄, c.Ready → c.pending.length ≤ ration.rounds → step' c = .ok (some a, c') →
    c'.pending.length < c.pending.length

namespace Turns

variable {step step₁ : Rationed (Option α)} {step' step₁' : Parser (Option α)}

theorem stop : Turns ration (pure none : Rationed (Option α)) (pure none) where
  lasts := .pure none
  takes := by
    intro c a c' _ _ ran
    simp at ran

theorem item {p : Rationed α} {q : Parser α} (items : Lasts ration 1 p q) :
    Turns ration (do return some (← p)) (do return some (← q)) where
  lasts := items.less.bind fun a => .pure (some a)
  takes := by
    intro c a c' ready fits ran
    obtain ⟨b, c₁, found, last⟩ := bind_ok.mp ran
    obtain ⟨-, rfl⟩ := pure_ok.mp last
    exact ((items ready fits).takes found).2

theorem lift_bind {q : Parser β} {f : β → Rationed (Option α)} {g : β → Parser (Option α)}
    (looks : Takes 0 q) (rest : ∀ b, Turns ration (f b) (g b)) :
    Turns ration (liftM q >>= f) (q >>= g) where
  lasts := .lift_bind looks fun b => (rest b).lasts
  takes := by
    intro c a c' ready fits ran
    obtain ⟨b, c₁, first, later⟩ := bind_ok.mp ran
    obtain ⟨reaches, -⟩ := looks ready first
    have ahead := reaches.pending.length_le
    have taken := (rest b).takes (reaches.ready ready) (ahead.trans fits) later
    omega

theorem ite {b : Prop} [Decidable b] (yes : b → Turns ration step step')
    (no : ¬ b → Turns ration step₁ step₁') :
    Turns ration (if b then step else step₁) (if b then step' else step₁') := by
  split
  · next h => exact yes h
  · next h => exact no h

variable (turns : Turns ration step step')
include turns

/-- Each round takes a token, so a ration of as many rounds as there are tokens left lasts. -/
theorem repeatFor (left : Nat) (ready : c.Ready) (fits : c.pending.length ≤ ration.rounds)
    (enough : c.pending.length ≤ left) :
    LastsFrom ration 0 c (repeatFor step left) (collect step') := by
  induction left generalizing c with
  | zero => simp [Cursor.pending] at enough
  | succ left ih =>
    refine .congr ?_ (collect_onward fun a c' ran => by
      simpa [Cursor.pending] using turns.takes ready fits ran)
    refine (turns.lasts ready fits).bind fun o c₁ ran reaches => ?_
    cases o with
    | none => exact ⟨rfl, .look⟩
    | some a =>
      have taken := turns.takes ready fits ran
      exact (ih (reaches.ready ready) (by omega) (by omega)).bind fun as c₂ _ _ => ⟨rfl, .look⟩

theorem repeated : Lasts ration 0 (repeated step) (collect step') := by
  intro c ready fits
  obtain ⟨same, takes⟩ := turns.repeatFor ration.rounds ready fits fits
  exact ⟨same, takes⟩

end Turns

namespace Lasts

variable {p : Rationed α} {q : Parser α} (items : Lasts ration 1 p q)
include items

theorem itemsUntil (close : Punctuator) :
    Lasts ration 0 (Parser.itemsUntil close p) (Parser.itemsUntil close q) :=
  Turns.repeated <| .lift_bind (.plain (.accept close)) fun _ =>
    .ite (fun _ => .stop) fun _ => .item items

theorem whileAt (mk : Punctuator) : Lasts ration 0 (Parser.whileAt mk p) (Parser.whileAt mk q) :=
  Turns.repeated <| .lift_bind (.plain (.atMark mk)) fun _ =>
    .ite (fun _ => .item items) fun _ => .stop

theorem markedItems (mk : Punctuator) :
    Lasts ration 0 (Parser.markedItems mk p) (Parser.markedItems mk q) :=
  Turns.repeated <| .lift_bind (.plain (.accept mk)) fun _ =>
    .ite (fun _ => .item items) fun _ => .stop

theorem separated (mk : Punctuator) :
    Lasts ration 1 (Parser.separated mk p) (Parser.separated mk q) :=
  lift_bind (m := 0) (.plain (.accept mk)) fun _ => items.bind fun first =>
    (items.markedItems mk).bind fun rest => .pure (first :: rest)

/-- The opening mark is a token that is taken. -/
theorem any (opening close : Punctuator) :
    Lasts ration 1 (Parser.any opening close p) (Parser.any opening close q) :=
  lift_bind (.expect opening) fun _ => lift_bind (m := 0) .look fun o =>
    (items.itemsUntil close).inside opening o

theorem many (opening close : Punctuator) :
    Lasts ration 1 (Parser.many opening close p) (Parser.many opening close q) :=
  lift_bind (.expect opening) fun _ => lift_bind (m := 0) .look fun o =>
    Lasts.inside (items.bind fun first =>
      (items.itemsUntil close).bind fun rest => .pure (first :: rest)) opening o

theorem optionalMany (opening close : Punctuator) :
    Lasts ration 0 (Parser.optionalMany opening close p) (Parser.optionalMany opening close q) :=
  lift_bind (m := 0) .look fun _ =>
    ite (fun _ => (items.many opening close).less) fun _ => .pure []

end Lasts
end Rationed
end GraphQL
