import GraphQL.Proofs.Complete.Repetition

/-! Runs of parsers on two streams of tokens of the same kinds, wherever the tokens stand. -/
namespace GraphQL

/-- Errors that differ in their places at most. -/
structure SyntaxError.Alike (e e' : SyntaxError) : Prop where
  violation : e.violation = e'.violation
  unclosed : e.unclosed.map (·.1) = e'.unclosed.map (·.1)

/-- Places in streams of tokens of the same kinds, which are cut off alike. -/
structure Cursor.Alike (c c' : Cursor) : Prop where
  pending : kinds c.pending = kinds c'.pending
  failure : Option.Rel SyntaxError.Alike c.failure c'.failure
  limit : c.limit = c'.limit

namespace Cursor.Alike

variable {c c' : Cursor}

theorem current (h : c.Alike c') : c.current.kind = c'.current.kind :=
  (List.cons.inj h.pending).1

theorem upcoming (h : c.Alike c') : kinds c.upcoming = kinds c'.upcoming :=
  (List.cons.inj h.pending).2

/-- Both have a token after the current one, or neither has. -/
theorem upcoming_cases (h : c.Alike c') :
    (∃ t ts u us, c.upcoming = t :: ts ∧ c'.upcoming = u :: us ∧ t.kind = u.kind ∧
      kinds (t :: ts) = kinds (u :: us)) ∨ (c.upcoming = [] ∧ c'.upcoming = []) := by
  have same := h.upcoming
  cases tokens : c.upcoming with
  | nil =>
    rw [tokens] at same
    exact .inr ⟨rfl, List.map_eq_nil_iff.mp same.symm⟩
  | cons t ts =>
    cases tokens' : c'.upcoming with
    | nil => simp [tokens, tokens', kinds] at same
    | cons u us =>
      rw [tokens, tokens'] at same
      exact .inl ⟨t, ts, u, us, rfl, rfl, (List.cons.inj same).1, same⟩

theorem length (h : c.Alike c') : c.upcoming.length = c'.upcoming.length := by
  simpa [kinds] using congrArg List.length h.upcoming

end Cursor.Alike

namespace Parser

variable {α β γ δ : Type}

/-- Results of two runs: things that are related, with alike places after them, or alike errors. -/
inductive ResultsAgree (R : α → β → Prop) :
    Except SyntaxError (α × Cursor) → Except SyntaxError (β × Cursor) → Prop
  | ok {a : α} {b : β} {c c' : Cursor} (related : R a b) (alike : c.Alike c') :
    ResultsAgree R (.ok (a, c)) (.ok (b, c'))
  | error {e e' : SyntaxError} (alike : e.Alike e') : ResultsAgree R (.error e) (.error e')

/-- From alike places two parsers have results that agree. -/
def Agree (R : α → β → Prop) (p : Parser α) (q : Parser β) : Prop :=
  ∀ ⦃c c' : Cursor⦄, c.Alike c' → ResultsAgree R (p c) (q c')

namespace Agree

variable {R : α → β → Prop} {S : γ → δ → Prop} {p : Parser α} {q : Parser β}

theorem pure {a : α} {b : β} (h : R a b) : Agree R (pure a) (pure b) := fun _ _ alike => .ok h alike

theorem bind {f : α → Parser γ} {g : β → Parser δ} (h : Agree R p q)
    (rest : ∀ a b, R a b → Agree S (f a) (g b)) : Agree S (p >>= f) (q >>= g) := by
  intro c c' alike
  have first := h alike
  rw [bind_result, bind_result]
  generalize p c = x, q c' = y at first
  cases first with
  | ok related alike => exact rest _ _ related alike
  | error alike => exact .error alike

theorem map {f : α → γ} {g : β → δ} (h : Agree R p q) (keeps : ∀ a b, R a b → S (f a) (g b)) :
    Agree S (f <$> p) (g <$> q) := by
  rw [map_eq_pure_bind, map_eq_pure_bind]
  exact h.bind fun a b related => .pure (keeps a b related)

theorem ite {b b' : Prop} [Decidable b] [Decidable b'] {p' : Parser α} {q' : Parser β}
    (same : b ↔ b') (yes : b → Agree R p q) (no : ¬ b → Agree R p' q') :
    Agree R (if b then p else p') (if b' then q else q') := by
  split
  · next h =>
    rw [if_pos (same.mp h)]
    exact yes h
  · next h =>
    rw [if_neg fun h' => h (same.mpr h')]
    exact no h

/-- What comes after either of two parsers. -/
theorem ite_bind {b b' : Prop} [Decidable b] [Decidable b'] {p' : Parser α} {q' : Parser β}
    {f : α → Parser γ} {g : β → Parser δ} (same : b ↔ b') (yes : Agree R p q) (no : Agree R p' q')
    (rest : ∀ a a', R a a' → Agree S (f a) (g a')) :
    Agree S (if b then p >>= f else p' >>= f) (if b' then q >>= g else q' >>= g) :=
  .ite same (fun _ => yes.bind rest) fun _ => no.bind rest

/-- A step that only looks at where it is. -/
theorem look {f : Cursor → α} {g : Cursor → β} (h : ∀ ⦃c c'⦄, c.Alike c' → R (f c) (g c')) :
    Agree R (fun c => .ok (f c, c)) (fun c => .ok (g c, c)) :=
  fun _ _ alike => .ok (h alike) alike

theorem here : Agree (fun _ _ => True) here here := look fun _ _ _ => trivial

theorem peek : Agree (fun t u => t.kind = u.kind) peek peek := look fun _ _ alike => alike.current

theorem spanFrom (start start' : Position) :
    Agree (fun _ _ => True) (spanFrom start) (spanFrom start') := look fun _ _ _ => trivial

theorem originOf (t u : Token) : Agree (fun _ _ => True) (originOf t) (originOf u) :=
  look fun _ _ _ => trivial

theorem atMark (m : Punctuator) : Agree Eq (atMark m) (atMark m) :=
  look fun _ _ alike => by rw [alike.current]

theorem atKeyword (word : String) : Agree Eq (atKeyword word) (atKeyword word) :=
  look fun _ _ alike => by rw [alike.current]

theorem consume : Agree (fun t u => t.kind = u.kind) consume consume := by
  intro c c' alike
  have failure := alike.failure
  unfold Parser.consume
  obtain ⟨t, ts, u, us, tokens, tokens', -, same⟩ | ⟨none, none'⟩ := alike.upcoming_cases
  · rw [tokens, tokens']
    exact .ok alike.current ⟨same, failure, alike.limit⟩
  · rw [none, none']
    simp only
    generalize c.failure = f, c'.failure = f' at failure
    cases failure with
    | some related => exact .error related
    | none =>
      exact .ok alike.current ⟨by simp [Cursor.pending, kinds, alike.current], .none, alike.limit⟩

theorem lookahead : Agree (fun t u => t.kind = u.kind) lookahead lookahead := by
  intro c c' alike
  have failure := alike.failure
  unfold Parser.lookahead
  obtain ⟨t, ts, u, us, tokens, tokens', same, -⟩ | ⟨none, none'⟩ := alike.upcoming_cases
  · rw [tokens, tokens']
    exact .ok same alike
  · rw [none, none']
    simp only
    generalize c.failure = f, c'.failure = f' at failure
    cases failure with
    | some related => exact .error related
    | none => exact .ok alike.current alike

theorem fail {v : Violation} (o o' : Origin) : Agree R (fail v o) (fail v o') :=
  fun _ _ _ => .error ⟨rfl, rfl⟩

theorem unexpectedAt {t u : Token} (same : t.kind = u.kind) (expected : Option Expectation) :
    Agree R (unexpectedAt t expected) (unexpectedAt u expected) := by
  intro c c' _
  unfold Parser.unexpectedAt
  rw [same]
  exact .error ⟨rfl, rfl⟩

theorem unexpected (expected : Option Expectation) :
    Agree R (unexpected expected) (unexpected expected) :=
  fun _ _ alike => unexpectedAt alike.current expected alike

theorem tooDeep : Agree R tooDeep tooDeep := by
  intro c c' alike
  unfold Parser.tooDeep
  rw [alike.limit]
  exact .error ⟨rfl, rfl⟩

theorem accept (m : Punctuator) : Agree Eq (accept m) (accept m) :=
  (atMark m).bind fun _ _ same => .ite (by rw [same])
    (fun _ => consume.bind fun _ _ _ => .pure rfl) fun _ => .pure rfl

theorem acceptKeyword (word : String) : Agree Eq (acceptKeyword word) (acceptKeyword word) :=
  (atKeyword word).bind fun _ _ same => .ite (by rw [same])
    (fun _ => consume.bind fun _ _ _ => .pure rfl) fun _ => .pure rfl

theorem expect (m : Punctuator) : Agree (fun t u => t.kind = u.kind) (expect m) (expect m) :=
  (atMark m).bind fun _ _ same => .ite (by rw [same]) (fun _ => consume) fun _ => unexpected _

theorem expectKeyword (word : String) :
    Agree (fun t u => t.kind = u.kind) (expectKeyword word) (expectKeyword word) :=
  (atKeyword word).bind fun _ _ same => .ite (by rw [same]) (fun _ => consume) fun _ => unexpected _

theorem expectEnd : Agree (fun _ _ => True) expectEnd expectEnd :=
  peek.bind fun _ _ same => .ite (by rw [same]) (fun _ => .pure trivial) fun _ => unexpected _

/-- What starts anywhere. -/
theorem started {f : Position → Parser α} {g : Position → Parser β}
    (rest : ∀ start start', Agree R (f start) (g start')) :
    Agree R (Parser.here >>= f) (Parser.here >>= g) := here.bind fun _ _ _ => rest _ _

/-- What is built with an origin. -/
theorem spanned {f : Origin → α} {g : Origin → β} {start start' : Position}
    (h : ∀ o o', R (f o) (g o')) :
    Agree R (do return f (← Parser.spanFrom start)) (do return g (← Parser.spanFrom start')) :=
  (spanFrom start start').bind fun _ _ _ => .pure (h _ _)

theorem marked {m : Punctuator} (rest : Agree R p q) :
    Agree R (do let _ ← Parser.expect m; p) (do let _ ← Parser.expect m; q) :=
  (expect m).bind fun _ _ _ => rest

theorem worded {word : String} (rest : Agree R p q) :
    Agree R (do let _ ← Parser.expectKeyword word; p) (do let _ ← Parser.expectKeyword word; q) :=
  (expectKeyword word).bind fun _ _ _ => rest

/-- A token, whichever it is, before other things. -/
theorem consumed (rest : Agree R p q) :
    Agree R (do let _ ← Parser.consume; p) (do let _ ← Parser.consume; q) :=
  consume.bind fun _ _ _ => rest

/-- An error at a token. -/
theorem failAt {v : Violation} {t u : Token} :
    Agree R (do Parser.fail v (← Parser.originOf t)) (do Parser.fail v (← Parser.originOf u)) :=
  (originOf t u).bind fun o o' _ => fail o o'

/-- The mark that an error names as unclosed is the same, wherever it was opened. -/
theorem inside (h : Agree R p q) (m : Punctuator) (o o' : Origin) :
    Agree R (inside m o p) (inside m o' q) := by
  intro c c' alike
  have read := h alike
  unfold Parser.inside
  generalize p c = x, q c' = y at read
  cases read with
  | ok related alike => exact .ok related alike
  | error alike =>
    refine .error ?_
    unfold SyntaxError.within
    rw [alike.violation]
    split
    · exact ⟨rfl, by simp [alike.unclosed]⟩
    · exact alike

end Agree

/-- From alike places two parsers read things that differ in their origins at most. -/
abbrev SameRuns [Comparable α] (p q : Parser α) : Prop :=
  Agree (fun a b => same false a b = true) p q

namespace SameRuns

variable [Comparable α] {p q : Parser α}

theorem mapSome (h : SameRuns p q) : SameRuns (some <$> p) (some <$> q) := h.map fun _ _ same_a => same_a

/-- A round of a loop that goes on. -/
theorem round (h : SameRuns p q) :
    SameRuns (do return some (← p) : Parser (Option α)) (do return some (← q)) :=
  h.bind fun _ _ same_a => .pure same_a

/-- The induction is on the tokens left, of which there are as many in both runs. -/
theorem collect {step step' : Parser (Option α)} (h : SameRuns step step') :
    SameRuns (collect step) (collect step') := by
  intro c
  induction size : c.upcoming.length using Nat.strong_induction_on generalizing c with
  | _ size ih =>
    subst size
    intro c' alike
    have read := h alike
    unfold Parser.collect
    generalize step c = x, step' c' = y at read
    cases read with
    | error alike => exact .error alike
    | @ok a b d d' same_a alike' =>
      match a, b, same_a with
      | none, none, _ => exact .ok rfl alike'
      | some a, some b, same_a =>
        simp only [alike.length, alike'.length]
        split
        · next shorter =>
          have others := ih d.upcoming.length (by rw [alike.length, alike'.length]; exact shorter)
            rfl alike'
          generalize Parser.collect step d = xs, Parser.collect step' d' = ys at others
          cases others with
          | error alike => exact .error alike
          | ok same_as alike =>
            refine .ok ?_ alike
            rw [same_list_cons, Bool.and_eq_true]
            exact ⟨same_a, same_as⟩
        · refine .ok ?_ alike'
          rw [same_list_cons, Bool.and_eq_true]
          exact ⟨same_a, rfl⟩

theorem itemsUntil (h : SameRuns p q) (close : Punctuator) :
    SameRuns (itemsUntil close p) (itemsUntil close q) :=
  collect <| (Agree.accept close).bind fun _ _ same => .ite (by rw [same])
    (fun _ => .pure rfl) fun _ => h.round

theorem any (h : SameRuns p q) (opening close : Punctuator) :
    SameRuns (any opening close p) (any opening close q) :=
  (Agree.expect opening).bind fun t u _ => (Agree.originOf t u).bind fun o o' _ =>
    (h.itemsUntil close).inside opening o o'

theorem cons {rest rest' : Parser (List α)} (h : SameRuns p q) (others : SameRuns rest rest') :
    SameRuns (do let a ← p; let as ← rest; return a :: as)
      (do let a ← q; let as ← rest'; return a :: as) :=
  h.bind fun _ _ same_a => others.bind fun _ _ same_as => .pure <| by
    rw [same_list_cons, Bool.and_eq_true]
    exact ⟨same_a, same_as⟩

theorem many (h : SameRuns p q) (opening close : Punctuator) :
    SameRuns (many opening close p) (many opening close q) :=
  (Agree.expect opening).bind fun t u _ => (Agree.originOf t u).bind fun o o' _ =>
    (h.cons (h.itemsUntil close)).inside opening o o'

theorem optionalMany (h : SameRuns p q) (opening close : Punctuator) :
    SameRuns (optionalMany opening close p) (optionalMany opening close q) :=
  (Agree.atMark opening).bind fun _ _ same => .ite (by rw [same])
    (fun _ => h.many opening close) fun _ => .pure rfl

theorem markedItems (h : SameRuns p q) (m : Punctuator) :
    SameRuns (markedItems m p) (markedItems m q) :=
  collect <| (Agree.accept m).bind fun _ _ same => .ite (by rw [same]) (fun _ => h.round)
    fun _ => .pure rfl

theorem separated (h : SameRuns p q) (m : Punctuator) :
    SameRuns (separated m p) (separated m q) :=
  (Agree.accept m).bind fun _ _ _ => h.cons (h.markedItems m)

theorem whileAt (h : SameRuns p q) (m : Punctuator) : SameRuns (whileAt m p) (whileAt m q) :=
  collect <| (Agree.atMark m).bind fun _ _ same => .ite (by rw [same]) (fun _ => h.round)
    fun _ => .pure rfl

end SameRuns
end Parser
end GraphQL
