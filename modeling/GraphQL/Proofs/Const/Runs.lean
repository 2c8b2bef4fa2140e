import GraphQL.Proofs.Nesting.Outcomes
import GraphQL.Proofs.Viable.Prompt

/-! Two runs of one parser from the same place, one that refuses variables and one that takes them.
Both have the same result up to the first variable. There the first run stops, and whatever the other
one does lies behind it. -/
namespace GraphQL

/-- The first node of a row of trees that is a variable. -/
def firstVariable? (ts : List (Tree Node)) : Option Node :=
  (Tree.preorderOf ts).find? (·.kind = .value .variable)

section FirstVariable

variable {n : Node} {ts us : List (Tree Node)}

theorem firstVariable?_append (ts us : List (Tree Node)) :
    firstVariable? (ts ++ us) = (firstVariable? ts).or (firstVariable? us) := by
  simp [firstVariable?, Tree.preorderOf_eq_flatMap, List.find?_append]

theorem firstVariable?_cons {α : Type} {trees : α → List (Tree Node)} (a : α) (as : List α) :
    firstVariable? ((a :: as).flatMap trees) =
      (firstVariable? (trees a)).or (firstVariable? (as.flatMap trees)) := by
  rw [List.flatMap_cons, firstVariable?_append]

theorem firstVariable?_row (t : Tree Node) (ts : List (Tree Node)) :
    firstVariable? (t :: ts) = (firstVariable? [t]).or (firstVariable? ts) :=
  firstVariable?_append [t] ts

theorem firstVariable?_tree (t : Tree Node) :
    firstVariable? [t] = t.preorder.find? (·.kind = .value .variable) := by
  simp [firstVariable?, Tree.preorderOf]

/-- Below a node that is no variable stands the first one, if there is one. -/
theorem firstVariable?_node (other : n.kind ≠ .value .variable) :
    firstVariable? [.node n ts] = firstVariable? ts := by
  simp [firstVariable?, Tree.preorderOf, Tree.preorder, other]

end FirstVariable

/-- A variable in a stream, with the place after it. -/
structure VariableAt (c : Cursor) (o : Origin) (n : Name) (c₁ : Cursor) : Prop where
  mark : c.current.kind = .punctuator .dollar
  tokens : ∃ t, t.kind = .name n.value ∧ Consumes c [c.current, t] c₁
  origin : o = ⟨c.source, c.current.start, c₁.lastEnd⟩

namespace Parser

variable {α β : Type} {c c₁ c₂ : Cursor} {trees : α → List (Tree Node)}
  {trees' : β → List (Tree Node)}

/-- What a run comes to behind some place, if the variable `v` stands in front of that: a result that
has it for its first one, or an error further on. -/
inductive Met (c : Cursor) (v : Node) (trees : α → List (Tree Node)) :
    Except SyntaxError (α × Cursor) → Prop
  | ok {a : α} {c' : Cursor} {ts : List Token} (steps : Consumes c ts c')
    (first : firstVariable? (trees a) = some v) : Met c v trees (.ok (a, c'))
  | error {e : SyntaxError} (place : e.At c) : Met c v trees (.error e)

/-- The results of two runs from some place, the first of which refuses variables. -/
inductive Refuses (position : ConstPosition) (c : Cursor) (trees : α → List (Tree Node)) :
    Except SyntaxError (α × Cursor) → Except SyntaxError (α × Cursor) → Prop
  | same {x : Except SyntaxError (α × Cursor)}
    (free : ∀ a c', x = .ok (a, c') → firstVariable? (trees a) = none) :
    Refuses position c trees x x
  | stops {ts : List Token} {c₁ c₂ : Cursor} {o : Origin} {n : Name}
    {y : Except SyntaxError (α × Cursor)} (steps : Consumes c ts c₁) (there : VariableAt c₁ o n c₂)
    (met : Met c₂ (.value (.variable (some o) n)) trees y) :
    Refuses position c trees (.error ⟨.variable n.value position, o, []⟩) y

/-- Runs from steady places compare so. -/
def Restricts (position : ConstPosition) (trees : α → List (Tree Node)) (p q : Parser α) : Prop :=
  ∀ ⦃c : Cursor⦄, c.Steady → Refuses position c trees (p c) (q c)

/-! ### Where runs come to -/

theorem at_before {e : SyntaxError} {ts : List Token} (h : e.At c₁) (steps : Consumes c ts c₁) :
    e.At c := by
  rcases h with ⟨t, ht, place⟩ | ⟨f, hf, place⟩
  · exact .inl ⟨t, steps.pending ▸ List.mem_append_right _ ht, place⟩
  · exact .inr ⟨f, steps.failure ▸ hf, place⟩

/-- A run from some place goes on from there, whether it fails or not. -/
structure Onward (c : Cursor) (p : Parser α) : Prop where
  steps : ∀ ⦃a c'⦄, p c = .ok (a, c') → ∃ ts, Consumes c ts c'
  error_at : ∀ ⦃e⦄, p c = .error e → e.At c

/-- An error is about the token that is reached, or about the last ones before it. -/
theorem PromptFrom.onward {p : Parser α} (h : PromptFrom c p) : Onward c p := by
  unfold PromptFrom at h
  generalize ran : p c = x at h
  constructor
  · intro a c' found
    obtain rfl := ran.symm.trans found
    cases h with
    | ok steps => exact ⟨_, steps⟩
  · intro e failed
    obtain rfl := ran.symm.trans failed
    cases h with
    | ends _ failure => exact .inr ⟨e, failure, rfl⟩
    | @error _ ts d steps place =>
      rcases Nat.eq_zero_or_pos e.violation.reach with none | reach
      · refine at_before (SyntaxError.at_current ?_) steps
        rw [place.ahead none]
        rfl
      · obtain ⟨us, vs, rfl, length, covering⟩ := place.behind reach
        obtain ⟨t, vs, rfl⟩ := List.exists_cons_of_length_pos (length ▸ reach)
        rw [Origin.covering, List.head?_cons, List.getLast?_eq_some_getLast (List.cons_ne_nil t vs)]
          at covering
        refine .inl ⟨t, by simp [steps.pending], ?_⟩
        rw [← Option.some.inj covering]

theorem Onward.congr {p q : Parser α} (h : Onward c q) (same : p c = q c) : Onward c p where
  steps _ _ ran := h.steps (same ▸ ran)
  error_at _ failed := h.error_at (same ▸ failed)

theorem Prompt.onward {p : Parser α} (h : Prompt p) (steady : c.Steady) : Onward c p :=
  (h steady).onward

section Loops

variable {step : Parser (Option α)}

theorem collectRest_onward (prompt : Prompt step) (steady : c.Steady) (k : Nat) (o : Option α) :
    Onward c (collectRest step k o) := by
  cases o with
  | none => exact (Prompt.pure []).onward steady
  | some a =>
    by_cases shorter : c.upcoming.length < k
    · exact (prompt.collect.map.onward steady).congr (if_pos shorter)
    · exact ((Prompt.pure [a]).onward steady).congr (if_neg shorter)

/-- What a round has found is the first of what the loop finds. -/
theorem collectRest_ok {k : Nat} {a : α} {as : List α}
    (ran : collectRest step k (some a) c = .ok (as, c₁)) : ∃ later, as = a :: later := by
  simp only [collectRest] at ran
  split at ran
  · obtain ⟨later, -, rfl⟩ := map_ok.mp ran
    exact ⟨later, rfl⟩
  · cases ran
    exact ⟨[], rfl⟩

end Loops

/-! ### One step after another -/

section Laws

variable {position : ConstPosition} {v : Node} {p q : Parser α} {f g : α → Parser β}

theorem Met.before {x : Except SyntaxError (α × Cursor)} {ts : List Token}
    (h : Met c₁ v trees x) (steps : Consumes c ts c₁) : Met c v trees x := by
  cases h with
  | ok steps' first => exact .ok (steps.trans steps') first
  | error place => exact .error (at_before place steps)

theorem Refuses.before {x y : Except SyntaxError (α × Cursor)} {ts : List Token}
    (h : Refuses position c₁ trees x y) (steps : Consumes c ts c₁) :
    Refuses position c trees x y := by
  cases h with
  | same free => exact .same free
  | stops steps' there met => exact .stops (steps.trans steps') there met

/-- What is read after a variable leaves it the first one. -/
theorem Met.bind {x : Except SyntaxError (α × Cursor)} (steady : c.Steady)
    (h : Met c v trees x) (ran : q c₁ = x)
    (later : ∀ a, firstVariable? (trees a) = some v → ∀ c' : Cursor, c'.Steady → Onward c' (g a) ∧
      ∀ b c'', g a c' = .ok (b, c'') → firstVariable? (trees' b) = some v) :
    Met c v trees' ((q >>= g) c₁) := by
  rw [bind_result, ran]
  cases h with
  | error place => exact .error place
  | @ok a c' ts steps first =>
    obtain ⟨onward, keeps⟩ := later a first c' (steps.steady steady)
    show Met c v trees' (g a c')
    cases ran' : g a c' with
    | error e => exact .error (at_before (onward.error_at ran') steps)
    | ok found =>
      obtain ⟨b, c''⟩ := found
      obtain ⟨us, steps'⟩ := onward.steps ran'
      exact .ok (steps.trans steps') (keeps b c'' ran')

/-- If the first run stops in the first part, the other does the second part alone. -/
theorem Refuses.bind (steady : c.Steady) (onward : Onward c q)
    (first : Refuses position c trees (p c) (q c))
    (rest : ∀ ⦃a c'⦄, q c = .ok (a, c') → c'.Steady → firstVariable? (trees a) = none →
      Refuses position c' trees' (f a c') (g a c'))
    (later : ∀ a v, firstVariable? (trees a) = some v → ∀ c' : Cursor, c'.Steady →
      Onward c' (g a) ∧ ∀ b c'', g a c' = .ok (b, c'') → firstVariable? (trees' b) = some v) :
    Refuses position c trees' ((p >>= f) c) ((q >>= g) c) := by
  rw [bind_result]
  generalize ran : q c = y at first
  generalize p c = x at first
  cases first with
  | same free =>
    rw [bind_result, ran]
    cases y with
    | error e => exact .same fun _ _ failed => nomatch failed
    | ok found =>
      obtain ⟨a, c'⟩ := found
      obtain ⟨ts, steps⟩ := onward.steps ran
      exact (rest ran (steps.steady steady) (free a c' rfl)).before steps
  | stops steps there met =>
    obtain ⟨t, -, steps'⟩ := there.tokens
    exact .stops steps there (met.bind (steps'.steady (steps.steady steady)) ran fun a => later a _)

end Laws

namespace Restricts

variable {position : ConstPosition} {p q : Parser α}

/-- What reads no variables. -/
theorem plain (free : ∀ ⦃c c' a⦄, p c = .ok (a, c') → firstVariable? (trees a) = none) :
    Restricts position trees p p := fun _ _ => .same fun _ _ ran => free ran

theorem unexpected (expected : Option Expectation) :
    Restricts position trees (unexpected expected) (unexpected expected) :=
  plain fun _ _ _ ran => absurd ran unexpected_ok

theorem ite {b : Prop} [Decidable b] {p' q' : Parser α} (yes : Restricts position trees p q)
    (no : Restricts position trees p' q') :
    Restricts position trees (if b then p else p') (if b then q else q') := by
  split
  · exact yes
  · exact no

/-- What stands in front and is not among what is read. -/
theorem after {r : Parser β} {f g : β → Parser α} (prompt : Prompt r)
    (rest : ∀ b, Restricts position trees (f b) (g b)) :
    Restricts position trees (r >>= f) (r >>= g) := by
  intro c steady
  have first : Refuses position c (fun _ : β => []) (r c) (r c) := .same fun _ _ _ => rfl
  exact first.bind steady (prompt.onward steady) (fun b c' _ steady' _ => rest b steady')
    fun _ _ none => nomatch none

/-- What is built of what was read, and of no other variables. -/
theorem build {f : α → Parser β} (h : Restricts position trees p q) (reads : Prompt q)
    (prompt : ∀ a, Prompt (f a))
    (keeps : ∀ ⦃a b c c'⦄, f a c = .ok (b, c') →
      firstVariable? (trees' b) = firstVariable? (trees a)) :
    Restricts position trees' (p >>= f) (q >>= f) := fun _ steady =>
  (h steady).bind steady (reads.onward steady)
    (fun _ _ _ _ free => .same fun _ _ ran => (keeps ran).trans free)
    fun a _ first _ steady' =>
      ⟨(prompt a).onward steady', fun _ _ ran => (keeps ran).trans first⟩

/-- Refused variables are not errors at the end of the input. -/
theorem inside (h : Restricts position trees p q) (m : Punctuator) (o : Origin) :
    Restricts position trees (inside m o p) (inside m o q) := by
  intro c steady
  have read := h steady
  generalize whole : q c = y at read
  generalize first : p c = x at read
  unfold Parser.inside
  rw [first, whole]
  cases read with
  | same free =>
    refine .same fun a c' ran => ?_
    cases y with
    | error e => cases ran
    | ok found => exact free a c' ran
  | stops steps there met =>
    refine .stops steps there ?_
    cases met with
    | ok steps first => exact .ok steps first
    | error place => exact .error (SyntaxError.at_within.mpr place)

/-- A round of a loop and those after it. The induction is on the tokens left. -/
theorem collect {step step' : Parser (Option α)} (prompt : Prompt step')
    (h : Restricts position (fun o => o.toList.flatMap trees) step step') :
    Restricts position (·.flatMap trees) (collect step) (collect step') := by
  intro c steady
  induction size : c.upcoming.length using Nat.strong_induction_on generalizing c with
  | _ size ih =>
    subst size
    rw [collect_eq, collect_eq]
    refine (h steady).bind steady (prompt.onward steady) (fun o c' _ steady' free => ?_)
      fun o v first c' steady' => ?_
    · cases o with
      | none => exact .same fun as c'' ran => by cases ran; rfl
      | some a =>
        have none_here : firstVariable? (trees a) = none := by simpa using free
        simp only [collectRest]
        split
        · next shorter =>
          rw [map_eq_pure_bind, map_eq_pure_bind]
          refine (ih _ shorter steady' rfl).bind steady' (prompt.collect.onward steady')
            (fun as c'' _ _ free => .same fun bs d ran => ?_)
            fun as v first d steady'' => ⟨(Prompt.pure _).onward steady'', fun bs d' ran => ?_⟩
          all_goals
            obtain ⟨rfl, -⟩ := pure_ok.mp ran
            rw [firstVariable?_cons, none_here, Option.none_or]
            assumption
        · exact .same fun as c'' ran => by cases ran; simpa using none_here
    · cases o with
      | none => cases first
      | some a =>
        have first : firstVariable? (trees a) = some v := by simpa using first
        refine ⟨collectRest_onward prompt steady' _ _, fun as c'' ran => ?_⟩
        obtain ⟨later, rfl⟩ := collectRest_ok ran
        rw [firstVariable?_cons, first]
        rfl

/-- Items up to a closing mark. -/
theorem any (prompt : Prompt q) (h : Restricts position trees p q) (opening close : Punctuator) :
    Restricts position (·.flatMap trees) (any opening close p) (any opening close q) := by
  have rounds : Restricts position (·.flatMap trees) (itemsUntil close p) (itemsUntil close q) := by
    refine collect ((Prompt.accept close).bind fun _ => .ite (.pure none)
      (prompt.bind fun a => .pure (some a))) (after (.accept close) fun _ => .ite (plain ?_) ?_)
    · intro c c' o ran
      obtain ⟨rfl, -⟩ := pure_ok.mp ran
      rfl
    · refine h.build prompt (fun a => .pure (some a)) fun a o c c' ran => ?_
      obtain ⟨rfl, -⟩ := pure_ok.mp ran
      simp
  exact after (.expect opening) fun t => after (.look (.originOf t) fun o => .pure o) fun o =>
    rounds.inside opening o

end Restricts

end Parser
end GraphQL
