import GraphQL.Proofs.Nesting.Outcomes
import GraphQL.Proofs.Sound.Repetition

/-! Guarded calls and lists of things in two runs. A call that the limit forbids is where the first
run stops; nothing else can stop it. -/
namespace GraphQL

open GraphQL.Tree

variable {α β : Type} {c c₀ : Cursor} {l m n : Nat} {D : Prop} {trees : α → List (Tree Node)}
  {trees' : β → List (Tree Node)} {tree : α → Tree Node}

namespace SyntaxError

variable {e : SyntaxError} {m : Punctuator} {o : Origin}

theorem violation_within : (e.within m o).violation = e.violation := by
  unfold within
  split <;> rfl

theorem origin_within : (e.within m o).origin = e.origin := by
  unfold within
  split <;> rfl

theorem at_within : (e.within m o).At c ↔ e.At c := by
  unfold At
  rw [origin_within]

end SyntaxError

namespace Parser

/-- What a loop does after a round, where `k` tokens were left before it. -/
def collectRest (step : Parser (Option α)) (k : Nat) : Option α → Parser (List α)
  | none => pure []
  | some a => fun c =>
    if c.upcoming.length < k then (List.cons a <$> collect step) c else .ok ([a], c)

theorem collect_eq (step : Parser (Option α)) (c : Cursor) :
    collect step c = (step >>= collectRest step c.upcoming.length) c := by
  rw [bind_result, collect]
  rcases step c with e | ⟨_ | a, c'⟩
  · rfl
  · rfl
  · simp only [collectRest, map_eq_pure_bind, bind_result]
    split
    · cases collect step c' <;> rfl
    · rfl

namespace Plain

theorem accept (m : Punctuator) : Plain (accept m) :=
  (atMark m).bind fun _ => .ite (fun _ => consume.bind fun _ => .pure true) fun _ => .pure false

theorem acceptKeyword (word : String) : Plain (acceptKeyword word) :=
  (atKeyword word).bind fun _ =>
    .ite (fun _ => consume.bind fun _ => .pure true) fun _ => .pure false

theorem expect (m : Punctuator) : Plain (expect m) :=
  (atMark m).bind fun _ => .ite (fun _ => consume) fun _ => unexpected _

theorem expectKeyword (word : String) : Plain (expectKeyword word) :=
  (atKeyword word).bind fun _ => .ite (fun _ => consume) fun _ => unexpected _

theorem expectEnd : Plain expectEnd :=
  peek.bind fun _ => .ite (fun _ => .pure ()) fun _ => unexpected _

end Plain
end Parser

namespace Metered

/-- What a loop does after a round, where `k` tokens were left before it. -/
def collectRest (step : Metered (Option α)) (k : Nat) : Option α → Metered (List α)
  | none => pure []
  | some a => fun c r =>
    if c.upcoming.length < k then (List.cons a <$> collect step) c r else (.ok ([a], c), r)

theorem collect_eq (step : Metered (Option α)) (c : Cursor) (r : Register) :
    collect step c r = (step >>= collectRest step c.upcoming.length) c r := by
  rw [Parser.metered_bind, collect]
  rcases step c r with ⟨e | ⟨_ | a, c'⟩, r'⟩
  · rfl
  · rfl
  · simp only [collectRest, map_eq_pure_bind, Parser.metered_bind]
    split
    · rcases collect step c' r' with ⟨_ | _, _⟩ <;> rfl
    · rfl

end Metered

namespace Parser

/-- A token that is consumed makes room for one more level. -/
theorem consume_makes_room {t : Token} {c' : Cursor} (ready : c.Ready)
    (more : c.current.kind ≠ .endOfInput) (h : consume c = .ok (t, c')) :
    n + 1 + c'.pending.length ≤ n + c.pending.length := by
  obtain ⟨-, step⟩ := consume_reads ready more h
  rw [step.pending, List.length_append, List.length_singleton]
  omega

namespace Settles

variable {p : Metered α} {q : Parser α}

theorem expect_bind {mk : Punctuator} {f : Token → Metered β} {g : Token → Parser β}
    (rest : ∀ t, Settles l m n D trees' (f t) (g t)) :
    Settles l m (n + 1) D trees' (liftM (expect mk) >>= f) (expect mk >>= g) := by
  refine consuming_bind (fun _ => n) (.expect mk) ?_ rest
  intro c c' t ready h
  simp only [expect, bind_ok, atMark_ok] at h
  obtain ⟨_, _, ⟨rfl, rfl⟩, h⟩ := h
  split at h
  · next at_mark =>
    rw [decide_eq_true_eq] at at_mark
    exact consume_makes_room ready (by simp [at_mark]) h
  · simp at h

theorem accept_bind {mk : Punctuator} {f : Bool → Metered β} {g : Bool → Parser β}
    (yes : Settles l m n D trees' (f true) (g true))
    (no : Settles l m (n + 1) D trees' (f false) (g false)) :
    Settles l m (n + 1) D trees' (liftM (accept mk) >>= f) (accept mk >>= g) := by
  refine consuming_bind (fun b => if b then n else n + 1) (.accept mk) ?_ (by simp [yes, no])
  intro c c' b ready h
  simp only [accept, bind_ok, atMark_ok] at h
  obtain ⟨_, _, ⟨rfl, rfl⟩, h⟩ := h
  split at h
  · next at_mark =>
    rw [decide_eq_true_eq] at at_mark
    simp only [bind_ok, pure_ok] at h
    obtain ⟨t, c₁, consumed, rfl, rfl⟩ := h
    exact consume_makes_room ready (by simp [at_mark]) consumed
  · simp only [pure_ok] at h
    obtain ⟨rfl, rfl⟩ := h
    simp

theorem inside (h : Settles l m n D trees p q) (mk : Punctuator) (o : Origin) :
    Settles l m n D trees (Metered.inside mk o p) (Parser.inside mk o q) := by
  intro c r sound level fits
  obtain ⟨depth, fits', outcome⟩ := h sound level fits
  unfold Metered.inside Parser.inside
  generalize p c r = z, q (c.limited (r.depth + m)) = y at depth fits' outcome
  obtain ⟨x, r'⟩ := z
  cases outcome with
  | same reaches deep => exact ⟨depth, fits', .same reaches deep⟩
  | fails place other =>
    refine ⟨depth, fits', .fails ?_ ?_⟩
    · rwa [SyntaxError.at_within]
    · rwa [SyntaxError.violation_within]
  | stops reaches room ahead alike =>
    refine ⟨depth, fits', .stops reaches room ?_ fun same => by rw [alike same]; rfl⟩
    match y, ahead with
    | .error e, place => exact SyntaxError.at_within.mpr place
    | .ok (a, c₂), found => exact found

theorem collect {step : Metered (Option α)} {step' : Parser (Option α)}
    (h : Settles l m n False (·.toList.map tree) step step') :
    Settles l m n False (·.map tree) (Metered.collect step) (Parser.collect step') := by
  intro c r sound level fits
  generalize sum : r.depth + m = limit
  induction k : c.upcoming.length using Nat.strong_induction_on generalizing c r with
  | _ k ih =>
    subst k
    rw [Metered.collect_eq, Parser.collect_eq]
    subst sum
    apply (h sound level fits).bind (fun _ => n) rfl
    intro o c' r' ran reaches depth fits'
    have := reaches.pending.length_le
    have fits₁ := reaches.limit.symm ▸ fits'
    have sum : r'.depth + m = r.depth + m := by rw [depth]
    refine ⟨by omega, ?_⟩
    cases o with
    | none => exact .pure fits₁ sum (by simp)
    | some a =>
      by_cases shorter : c'.upcoming.length < c.upcoming.length
      · have first : Metered.collectRest step c.upcoming.length (some a) c' r' =
            (List.cons a <$> Metered.collect step) c' r' := if_pos shorter
        have second : collectRest step' c.upcoming.length (some a) (c'.limited (r.depth + m)) =
            (List.cons a <$> Parser.collect step') (c'.limited (r.depth + m)) := if_pos shorter
        have go := ih _ shorter (reaches.sound sound) (by rw [depth, level, reaches.limit]) fits₁
          sum rfl
        exact first ▸ second ▸ go.map sum (by simp)
      · have first : Metered.collectRest step c.upcoming.length (some a) c' r' =
            (.ok ([a], c'), r') := if_neg shorter
        have second : collectRest step' c.upcoming.length (some a) (c'.limited (r.depth + m)) =
            .ok ([a], c'.limited (r.depth + m)) := if_neg shorter
        exact first ▸ second ▸ .pure fits₁ sum (by simp)

section Lists

variable (h : Settles l m n False (fun a => [tree a]) p q)
include h

theorem itemsUntil (closing : Punctuator) :
    Settles l m n False (·.map tree) (Parser.itemsUntil closing p) (Parser.itemsUntil closing q) :=
  collect <| plain_bind (.accept closing) fun _ =>
    ite (fun _ => pure (by simp)) fun _ => h.bind fun a => pure (by simp)

/-- Only after the opening mark does anything nest. -/
theorem any (opening closing : Punctuator) :
    Settles l m (n + 1) False (·.map tree) (Parser.any opening closing p)
      (Parser.any opening closing q) :=
  expect_bind fun t => plain_bind (.originOf t) fun o => (h.itemsUntil closing).inside opening o

theorem many (opening closing : Punctuator) :
    Settles l m (n + 1) False (·.map tree) (Parser.many opening closing p)
      (Parser.many opening closing q) :=
  expect_bind fun t => plain_bind (.originOf t) fun o =>
    (h.bind fun a => (h.itemsUntil closing).bind fun as => pure (by simp)).inside opening o

theorem optionalMany (opening closing : Punctuator) :
    Settles l m n False (·.map tree) (Parser.optionalMany opening closing p)
      (Parser.optionalMany opening closing q) :=
  plain_bind (.atMark opening) fun _ =>
    ite (fun _ => (h.many opening closing).lessRoom) fun _ => pure (by simp)

theorem whileAt (mk : Punctuator) :
    Settles l m n False (·.map tree) (Parser.whileAt mk p) (Parser.whileAt mk q) :=
  collect <| plain_bind (.atMark mk) fun _ =>
    ite (fun _ => h.bind fun a => pure (by simp)) fun _ => pure (by simp)

theorem markedItems (mk : Punctuator) :
    Settles l m n False (·.map tree) (Parser.markedItems mk p) (Parser.markedItems mk q) :=
  collect <| plain_bind (.accept mk) fun _ =>
    ite (fun _ => h.bind fun a => pure (by simp)) fun _ => pure (by simp)

theorem separated (mk : Punctuator) :
    Settles l m n False (·.map tree) (Parser.separated mk p) (Parser.separated mk q) :=
  plain_bind (.accept mk) fun _ => h.bind fun a => (h.markedItems mk).bind fun as => pure (by simp)

end Lists

/-- A call with levels left goes one level down. -/
theorem guarded {below : α → List (Tree Node)} (h : Settles l m (n + 1) D below p q)
    (deepens : ∀ a, RowExceeds l (below a) → RowExceeds (l + 1) (trees a)) :
    Settles (l + 1) (m + 1) n D trees (Metered.guarded p) q := by
  intro c r sound level fits
  have sum : r.enter.depth + m = r.depth + (m + 1) := by
    simp only [Register.enter]
    omega
  have inner : r.enter.Fits c.limit := by
    refine ⟨?_, fits.calls⟩
    simp only [Register.enter]
    exact max_le fits.peak (by omega)
  obtain ⟨depth, fits', outcome⟩ := h sound (by simp only [Register.enter]; omega) inner
  rw [sum] at outcome
  rw [Metered.guarded, if_neg (by omega)]
  generalize p c r.enter = z, q (c.limited (r.depth + (m + 1))) = y at depth fits' outcome
  obtain ⟨x, r'⟩ := z
  have back : r'.depth - 1 = r.depth := by
    change r'.depth = r.depth + 1 at depth
    omega
  refine ⟨back, ⟨fits'.peak, ?_⟩, ?_⟩
  · intro call hcall
    rcases List.mem_append.mp hcall with hcall | hcall
    · exact fits'.calls call hcall
    · rw [List.mem_singleton.mp hcall]
      exact back.symm
  · cases outcome with
    | same reaches deep => exact .same reaches fun d => deepens _ (deep d)
    | fails place other => exact .fails place other
    | stops reaches room ahead alike =>
      exact .stops reaches (by omega) (ahead.mono deepens) fun same => alike (by omega)

/-- What the run with levels does is ahead. -/
theorem ahead (h : Settles m m n D trees p q) (sound : c.Sound) (levels : m ≤ c.limit) :
    Ahead c (fun _ => True) (q c) := by
  let r : Register := ⟨c.limit - m, 0, []⟩
  have level : r.depth + m = c.limit := by simp only [r]; omega
  have found := (h sound level ⟨by simp [r], by simp [r]⟩).outcome.ahead
  rw [level, Cursor.limited_of_limit rfl] at found
  exact found.mono fun _ _ => trivial

/-- Where neither run has levels left, both stop. -/
theorem guarded_tooDeep : Settles 0 0 0 D trees (Metered.guarded p) tooDeep := by
  intro c r sound level fits
  rw [Metered.guarded, if_pos (by omega), Cursor.limited_of_limit level.symm]
  exact ⟨rfl, fits, .stops (.refl c) (by omega) (SyntaxError.at_current rfl) fun _ => rfl⟩

/-- Where only the first run has no levels left, the other makes the call that stops the first. -/
theorem guarded_stops {below : α → List (Tree Node)}
    (alone : ∃ p', Settles m m (n + 1) False below p' q)
    (deep : ∀ a, RowExceeds 0 (trees a)) :
    Settles 0 (m + 1) 0 D trees (Metered.guarded p) q := by
  intro c r sound level fits
  obtain ⟨p', h⟩ := alone
  rw [Metered.guarded, if_pos (by omega)]
  refine ⟨rfl, fits, .stops (.refl c) (by omega) ?_ (by simp)⟩
  have levels : m ≤ (c.limited (r.depth + (m + 1))).limit := by
    simp only [Cursor.limited]
    omega
  exact (h.ahead (sound.limited _) levels).mono fun a _ => deep a

/-- Nodes that count as a level are read by guarded calls. -/
theorem guarded_node (node : α → Node) (nests : ∀ a, (node a).nests = true)
    (alone : ∃ p', Settles m m 1 False (fun a => (node a).tree.children) p' q)
    (deeper : ∀ k, l = k + 1 → Settles k m 1 False (fun a => (node a).tree.children) p q) :
    Settles l (m + 1) 0 False (fun a => [(node a).tree]) (Metered.guarded p) q := by
  cases l with
  | zero => exact guarded_stops alone fun a => rowExceeds_zero _ (nests a)
  | succ l => exact (deeper l rfl).guarded fun a => (rowExceeds_nested _ (nests a)).mpr

end Settles

end Parser
end GraphQL
