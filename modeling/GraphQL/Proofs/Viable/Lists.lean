import GraphQL.Proofs.Nesting.Repetition
import GraphQL.Proofs.Viable.Runs

/-! Viable parsers of lists. Between marks the condition on the tokens in front is that of the items
alone, for what is open inside comes on top of the mark in front of them. -/
namespace GraphQL.Parser

open Spelling Computability

variable {α β : Type} {ok inner : Condition} {A B : Spelling} {c c₁ c' : Cursor}

theorem mem_star_cons {ks : List TokenKind} (h : ks ∈ A * A∗) : ks ∈ A∗ := by
  rw [← Language.one_add_self_mul_kstar_eq_kstar]
  exact .inr h

theorem mem_star_single {ks : List TokenKind} (h : ks ∈ A) : ks ∈ A∗ :=
  Language.mem_kstar.mpr ⟨[ks], by simp, by simpa using h⟩

/-- What the rounds of a loop do: each passes an item, but for the last one. -/
def RoundAt (ok : Condition) (A : Spelling) (Last : Cursor → Cursor → Prop) (c : Cursor) :
    Except SyntaxError (Option α × Cursor) → Prop
  | .ok (some _, c') => Passes A c c'
  | .ok (none, c') => Last c c'
  | .error e => e.violation.IsUnexpected → Halts ok A c e

/-- What a loop does: it passes items up to its last round. -/
def LoopAt (ok : Condition) (A : Spelling) (Last : Cursor → Cursor → Prop) (c : Cursor) :
    Except SyntaxError (β × Cursor) → Prop
  | .ok (_, c') => ∃ c₁, Passes A c c₁ ∧ Last c₁ c'
  | .error e => e.violation.IsUnexpected → Halts ok A c e

theorem LoopAt.after {Last : Cursor → Cursor → Prop} {x : Except SyntaxError (β × Cursor)}
    [ok.TailClosed] (first : Passes A c c₁) (h : LoopAt ok B Last c₁ x) :
    LoopAt ok (A * B) Last c x := by
  match x, h with
  | .ok (b, c'), ⟨c₂, passes, last⟩ => exact ⟨c₂, first.trans passes, last⟩
  | .error e, halts =>
    exact fun unexpected => (halts unexpected).after first fun _ _ _ _ _ holds =>
      Condition.TailClosed.tail holds

theorem LoopAt.map {γ : Type} {p : Parser β} {Last : Cursor → Cursor → Prop}
    (h : LoopAt ok A Last c (p c)) (f : β → γ) :
    LoopAt ok A Last c ((do return f (← p) : Parser γ) c) := by
  rw [bind_result]
  match p c, h with
  | .ok (b, c'), passed => exact passed
  | .error e, halts => exact halts

theorem LoopAt.mono {Last : Cursor → Cursor → Prop} {x : Except SyntaxError (β × Cursor)}
    (h : LoopAt ok A Last c x) (sub : ∀ ks ∈ A, ks ∈ B) : LoopAt ok B Last c x := by
  match x, h with
  | .ok (b, c'), ⟨c₂, passes, last⟩ => exact ⟨c₂, passes.mono sub, last⟩
  | .error e, halts => exact fun unexpected => (halts unexpected).mono sub fun _ _ => id

theorem collect_loops [ok.TailClosed] {step : Parser (Option α)} {Last : Cursor → Cursor → Prop}
    (some_token : [] ∉ A) (rounds : ∀ ⦃c⦄, c.Whole → RoundAt ok A Last c (step c))
    (whole : c.Whole) : LoopAt ok A∗ Last c (collect step c) := by
  have round := rounds whole
  fun_induction collect step c with
  | case1 c e hs =>
    rw [hs] at round
    exact fun unexpected => (round unexpected).mono (fun _ => mem_star_single) fun _ _ => id
  | case2 c c₁ hs =>
    rw [hs] at round
    exact ⟨c, (Passes.refl c).mono fun _ mem => mem ▸ Language.nil_mem_kstar A, round⟩
  | case3 c a c₁ hs shorter e hr ih =>
    rw [hs] at round
    have passes : Passes A c c₁ := round
    have later := ih (passes.whole whole) (rounds (passes.whole whole))
    rw [hr] at later
    exact (later.after passes).mono fun _ => mem_star_cons
  | case4 c a c₁ hs shorter as' c₂ hr ih =>
    rw [hs] at round
    have passes : Passes A c c₁ := round
    have later := ih (passes.whole whole) (rounds (passes.whole whole))
    rw [hr] at later
    exact (later.after passes).mono fun _ => mem_star_cons
  | case5 c a c₁ hs shorter =>
    rw [hs] at round
    have passes : Passes A c c₁ := round
    exact absurd (passes.progress some_token) shorter

/-- A round that goes on with an item. -/
theorem ViableAt.round {item : Parser α} {Last : Cursor → Cursor → Prop}
    (h : ViableAt ok A c (item c₁)) :
    RoundAt ok A Last c ((do return some (← item) : Parser (Option α)) c₁) := by
  rw [bind_result]
  match item c₁, h with
  | .ok (a, c'), passes => exact passes
  | .error e, halts => exact halts

/-- A loop whose last round consumes nothing. -/
theorem LoopAt.viableAt {x : Except SyntaxError (β × Cursor)} (h : LoopAt ok A Eq c x) :
    ViableAt ok A c x := by
  match x, h with
  | .ok (b, c'), ⟨_, passes, rfl⟩ => exact passes
  | .error e, halts => exact halts

theorem whileAt_viable [ok.TailClosed] {item : Parser α} (items : Viable ok item A) (m : Punctuator)
    (some_token : [] ∉ A) : Viable ok (whileAt m item) A∗ where
  run c whole := by
    refine (collect_loops some_token ?_ whole).viableAt
    intro c whole
    rw [lifted_self, atMark_bind]
    split
    · exact (items.run whole).round
    · exact rfl
  blank _ _ _ := .star

theorem markedItems_viable [ok.TailClosed] {item : Parser α} (items : Viable ok item A)
    {m : Punctuator} (flat : m.isFlat = true) : Viable ok (markedItems m item) (mark m * A)∗ where
  run c whole := by
    refine (collect_loops (by simp) ?_ whole).viableAt
    intro c whole
    rcases whole.accept m with ⟨c', ran, steps, kind⟩ | ⟨ran, -⟩
    · have passes : Passes (mark m) c c' :=
        ⟨_, steps, by simp [kind], by simpa [kind] using .flat flat⟩
      rw [lifted_self, bind_eq ran, if_pos rfl]
      exact ((items.run (passes.whole whole)).after passes
        fun _ _ _ _ _ holds => Condition.TailClosed.tail holds).round
    · rw [lifted_self, bind_eq ran, if_neg (by simp)]
      exact rfl
  blank _ _ _ := .star

theorem separated_viable [ok.TailClosed] [Nonempty α] {item : Parser α} (items : Viable ok item A)
    {m : Punctuator} (flat : m.isFlat = true) :
    Viable ok (Parser.separated m item) ((mark m + 1) * (A * (mark m * A)∗)) :=
  (Viable.acceptOnly flat).bind fun _ => items.bind fun first =>
    (((markedItems_viable items flat).bind fun rest => .pure (first :: rest)).sub
      fun _ => by simp)

/-- What is inside marks: items and then the mark that closes them. -/
def Shut (close : Punctuator) (c c' : Cursor) : Prop :=
  c.current.kind = .punctuator close ∧ Consumes c [c.current] c'

theorem itemsUntil_loops [inner.TailClosed] {item : Parser α} (items : Viable inner item A)
    (close : Punctuator) (some_token : [] ∉ A) (whole : c.Whole) :
    LoopAt inner A∗ (Shut close) c (itemsUntil close item c) := by
  refine collect_loops some_token ?_ whole
  intro c whole
  rcases whole.accept close with ⟨c', ran, steps, kind⟩ | ⟨ran, -⟩
  · rw [lifted_self, bind_eq ran, if_pos rfl]
    exact ⟨kind, steps⟩
  · rw [lifted_self, bind_eq ran, if_neg (by simp)]
    exact (items.run whole).round

/-- The marks that a parser looks for around something, with the condition that holds between
them. -/
structure Between (ok inner : Condition) (opening closing : Punctuator) : Prop where
  marks : LeavesOpen.Closes opening closing
  weaker : ∀ ks opened, LeavesOpen ks opened → ok (.punctuator opening :: ks) (opening :: opened) →
    inner ks opened

namespace Between

variable {const : Bool} {levels : Nat}

theorem clear_last {ks : List TokenKind} {k : TokenKind}
    (h : (k :: ks).getLast? ≠ some (.punctuator .dollar)) :
    ks.getLast? ≠ some (.punctuator .dollar) := by
  intro last
  rw [List.getLast?_cons, last] at h
  exact h rfl

theorem parens : Between (Clear const levels) (Clear const levels) .openParen .closeParen where
  marks := by simp [LeavesOpen.Closes]
  weaker ks opened _ holds := ⟨by simpa [Punctuator.nests] using holds.1,
    fun constant => clear_last (holds.2 constant)⟩

theorem braces :
    Between (Clear const (levels + 1)) (Clear const levels) .openBrace .closeBrace where
  marks := by simp [LeavesOpen.Closes]
  weaker ks opened _ holds := ⟨by simpa [Punctuator.nests] using holds.1,
    fun constant => clear_last (holds.2 constant)⟩

theorem brackets :
    Between (Clear const (levels + 1)) (Clear const levels) .openBracket .closeBracket where
  marks := by simp [LeavesOpen.Closes]
  weaker ks opened _ holds := ⟨by simpa [Punctuator.nests] using holds.1,
    fun constant => clear_last (holds.2 constant)⟩

end Between

/-- What was read between marks. -/
theorem Passes.between {opening closing : Punctuator} {c₂ : Cursor}
    (marks : LeavesOpen.Closes opening closing) (kind : c.current.kind = .punctuator opening)
    (opened : Consumes c [c.current] c₁) (h : Passes A c₁ c₂) (shut : Shut closing c₂ c') :
    Passes (mark opening * A * mark closing) c c' := by
  obtain ⟨ts, steps, mem, closed⟩ := h
  obtain ⟨kind', closing⟩ := shut
  refine ⟨[c.current] ++ ts ++ [c₂.current], (opened.trans steps).trans closing, ?_, ?_⟩
  · rw [kinds, List.map_append, List.map_append]
    exact Language.append_mem_mul (Language.append_mem_mul (by simp [kind]) mem) (by simp [kind'])
  · simpa [kind, kind'] using closed.closed marks

/-- What halts between marks. -/
theorem Halts.between {opening closing : Punctuator} {e : SyntaxError}
    (between : Between ok inner opening closing) (kind : c.current.kind = .punctuator opening)
    (opened : Consumes c [c.current] c₁) (h : Halts inner A c₁ e) :
    Halts ok (mark opening * A * mark closing) c e := by
  obtain ⟨ts, c', unclosed, steps, misfit, leaves, completes⟩ := h
  have whole : kinds ([c.current] ++ ts) = .punctuator opening :: kinds ts := by simp [kind]
  refine ⟨[c.current] ++ ts, c', opening :: unclosed, opened.trans steps, misfit, ?_, ?_⟩
  · rw [whole]
    exact (LeavesOpen.opening between.marks).append leaves
  · rw [whole]
    intro holds
    have first : [TokenKind.punctuator opening] ∈ mark opening := by simp
    exact (Completes.after first (completes (between.weaker _ _ leaves holds))).mul (.mark closing)

/-- A run between marks, from the one that opens on. -/
theorem LoopAt.between {opening closing : Punctuator} {x : Except SyntaxError (β × Cursor)}
    (between : Between ok inner opening closing) (kind : c.current.kind = .punctuator opening)
    (opened : Consumes c [c.current] c₁) (h : LoopAt inner A (Shut closing) c₁ x) :
    ViableAt ok (mark opening * A * mark closing) c x := by
  match x, h with
  | .ok (b, c'), ⟨c₂, passes, shut⟩ => exact passes.between between.marks kind opened shut
  | .error e, halts => exact fun unexpected => (halts unexpected).between between kind opened

/-- Something and the mark that closes it. -/
theorem shut_loops {item : Parser α} (close : Punctuator) (h : ViableAt inner A c (item c))
    (whole : c.Whole) : LoopAt inner A (Shut close) c ((do
      let a ← item
      let _ ← expect close
      return a) c) := by
  rw [bind_result]
  match item c, h with
  | .error e, halts => exact halts
  | .ok (a, c₁), passes =>
    have passes : Passes A c c₁ := passes
    simp only [expect, bind_assoc]
    rw [atMark_bind]
    split
    · next at_mark =>
      have kind : c₁.current.kind = .punctuator close := of_decide_eq_true at_mark
      obtain ⟨c₂, ran, steps⟩ := (passes.whole whole).consume (by simp [kind])
      rw [bind_eq ran]
      exact ⟨c₁, passes, kind, steps⟩
    · obtain ⟨ts, steps, mem, closed⟩ := passes
      exact fun _ => ⟨ts, c₁, [], steps, ⟨rfl, _, rfl⟩, closed,
        fun _ => ⟨[], by simpa using mem, by simp⟩⟩

/-- What an error tells of open marks changes nothing about its place. -/
theorem ViableAt.inside {p : Parser β} (h : ViableAt ok A c (p c₁)) (m : Punctuator) (o : Origin) :
    ViableAt ok A c (inside m o p c₁) := by
  unfold Parser.inside
  generalize p c₁ = x at h ⊢
  rcases x with e | ⟨b, c'⟩
  · intro unexpected
    rw [SyntaxError.violation_within] at unexpected
    exact (h unexpected).within m o
  · exact h

/-- What stands between marks. -/
theorem bracketed_viable {opening closing : Punctuator} {p : Parser β}
    (between : Between ok inner opening closing)
    (blank : ∀ ks opened, ok ks opened → Completes A [])
    (loops : ∀ ⦃c⦄, c.Whole → LoopAt inner A (Shut closing) c (p c)) :
    Viable ok (do
      let t ← expect opening
      let opened ← originOf t
      inside opening opened p) (mark opening * A * mark closing) where
  run c whole := by
    have complete : ∀ ks opened, ok ks opened → Completes (mark opening * A * mark closing) [] :=
      fun _ _ holds => ((Completes.mark opening).mul (blank _ _ holds)).mul (.mark closing)
    rw [expect, bind_assoc, atMark_bind]
    split
    · next at_mark =>
      have kind : c.current.kind = .punctuator opening := of_decide_eq_true at_mark
      obtain ⟨c₁, ran, opened⟩ := whole.consume (by simp [kind])
      have inside_loops := loops (opened.whole whole)
      rw [bind_eq ran, originOf_bind]
      exact (inside_loops.between between kind opened).inside _ _
    · exact fun _ => .here complete
  blank _ _ holds := ((Completes.mark opening).mul (blank _ _ holds)).mul (.mark closing)

section Items

variable [inner.TailClosed] {item : Parser α} {opening closing : Punctuator}
  (items : Viable inner item A) (between : Between ok inner opening closing) (some_token : [] ∉ A)
include items between some_token

theorem any_viable : Viable ok (any opening closing item) (mark opening * A∗ * mark closing) :=
  bracketed_viable between (fun _ _ _ => .star)
    fun _ whole => itemsUntil_loops items closing some_token whole

theorem many_viable (blank : ∀ ks opened, ok ks opened → Completes A []) :
    Viable ok (many opening closing item) (mark opening * (A * A∗) * mark closing) := by
  refine bracketed_viable between (fun _ _ holds => (blank _ _ holds).mul .star) fun c whole => ?_
  have first := items.run whole
  rw [bind_result]
  match item c, first with
  | .error e, halts => exact fun unexpected => (halts unexpected).before fun _ _ _ => .star
  | .ok (a, c₁), passes =>
    have passes : Passes A c c₁ := passes
    have rest := itemsUntil_loops items closing some_token (passes.whole whole)
    exact (rest.map (a :: ·)).after passes

theorem optionalMany_viable (blank : ∀ ks opened, ok ks opened → Completes A []) :
    Viable ok (optionalMany opening closing item)
      (mark opening * (A * A∗) * mark closing + 1) where
  run c whole := by
    simp only [optionalMany, lifted_self]
    rw [atMark_bind]
    split
    · exact ((many_viable items between some_token blank).run whole).mono (fun _ => .inl)
        fun _ _ => id
    · exact (Passes.refl c).mono fun _ => .inr
  blank _ _ _ := .inr .one

end Items
end GraphQL.Parser
