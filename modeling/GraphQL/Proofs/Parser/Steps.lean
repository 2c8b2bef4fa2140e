import GraphQL.Parser.Value
import GraphQL.Proofs.Extent

/-! The steps of a parser, one by one: when each succeeds, and what a run of them consumes. -/
namespace GraphQL

/-- The current token and those after it. -/
def Cursor.pending (c : Cursor) : List Token := c.current :: c.upcoming

/-- The tokens `ts` lie between two places of one stream. -/
structure Consumes (c : Cursor) (ts : List Token) (c' : Cursor) : Prop where
  pending : c.pending = ts ++ c'.pending
  source : c'.source = c.source
  failure : c'.failure = c.failure
  lastEnd : c'.lastEnd = (ts.getLast?.map (·.stop)).getD c.lastEnd

/-- What a cursor can rely on: a stream without a failure has the end of the input as its last
token, and the names in it are names. -/
structure Cursor.Ready (c : Cursor) : Prop where
  ends : c.failure = none → ∀ t ∈ c.pending.getLast?, t.kind = .endOfInput
  names : ∀ t ∈ c.pending, ∀ text, t.kind = .name text → IsName text

/-- Where a stream without a failure has no more tokens, the current one is the end of the input. -/
theorem Cursor.Ready.kind_of_last {c : Cursor} (ready : c.Ready) (last : c.upcoming = [])
    (uncut : c.failure = none) : c.current.kind = .endOfInput :=
  ready.ends uncut c.current (by simp [Cursor.pending, last])

namespace Consumes

variable {c c₁ c₂ : Cursor} {ts us : List Token}

theorem refl (c : Cursor) : Consumes c [] c := ⟨rfl, rfl, rfl, rfl⟩

theorem trans (h : Consumes c ts c₁) (h' : Consumes c₁ us c₂) : Consumes c (ts ++ us) c₂ where
  pending := by rw [h.pending, h'.pending, List.append_assoc]
  source := h'.source.trans h.source
  failure := h'.failure.trans h.failure
  lastEnd := by
    rw [h'.lastEnd, h.lastEnd, List.getLast?_append]
    cases us.getLast? <;> simp

theorem ready (h : Consumes c ts c₁) (r : c.Ready) : c₁.Ready where
  ends := by
    intro none t ht
    apply r.ends (h.failure ▸ none)
    rw [h.pending, List.getLast?_append, Option.mem_def.mp ht]
    rfl
  names := by
    intro t ht
    apply r.names t
    rw [h.pending]
    exact List.mem_append_right _ ht

/-- The tokens consumed start with the current one. -/
theorem head? (h : Consumes c ts c₁) (ne : ts ≠ []) : ts.head? = some c.current := by
  obtain ⟨t, ts, rfl⟩ := List.exists_cons_of_ne_nil ne
  have := h.pending
  simp only [Cursor.pending, List.cons_append, List.cons.injEq] at this
  simp [this.1]

/-- What a parser gives to a node as its origin covers the tokens consumed. -/
theorem origin (h : Consumes c ts c₁) (ne : ts ≠ []) :
    some ⟨c₁.source, c.current.start, c₁.lastEnd⟩ = Origin.covering c.source ts := by
  have last := h.lastEnd
  rw [List.getLast?_eq_some_getLast ne] at last
  simp [Origin.covering, h.head? ne, h.source, last, List.getLast?_eq_some_getLast ne]

theorem length_lt (h : Consumes c ts c₁) (ne : ts ≠ []) :
    c₁.upcoming.length < c.upcoming.length := by
  have := congrArg List.length h.pending
  have := List.length_pos_iff.mpr ne
  simp only [Cursor.pending, List.length_append, List.length_cons] at *
  omega

end Consumes

/-- Between two cursors stand tokens that were read as some trees. -/
def Read (const : Bool) (levels : Nat) (c c' : Cursor) (spelling : Spelling)
    (trees : List (Tree Node)) : Prop :=
  ∃ ts, Consumes c ts c' ∧ Reading c.source const levels spelling trees ts

namespace Read

variable {const : Bool} {levels : Nat} {c c₁ c₂ : Cursor} {A B : Spelling}
  {a b : List (Tree Node)}

theorem refl (c : Cursor) : Read const levels c c 1 [] := ⟨[], .refl c, .nil⟩

theorem trans (h : Read const levels c c₁ A a) (h' : Read const levels c₁ c₂ B b) :
    Read const levels c c₂ (A * B) (a ++ b) := by
  obtain ⟨ts, steps, reading⟩ := h
  obtain ⟨us, steps', reading'⟩ := h'
  rw [steps.source] at reading'
  exact ⟨ts ++ us, steps.trans steps', reading.append reading'⟩

/-- Tokens without trees may follow. -/
theorem skip (h : Read const levels c c₁ A a) (h' : Read const levels c₁ c₂ B []) :
    Read const levels c c₂ (A * B) a := by
  have both := h.trans h'
  rwa [List.append_nil] at both

theorem ready (h : Read const levels c c₁ A a) (r : c.Ready) : c₁.Ready := by
  obtain ⟨ts, steps, _⟩ := h
  exact steps.ready r

theorem progress {t : Tree Node} (h : Read const levels c c₁ A (t :: a)) :
    c₁.upcoming.length < c.upcoming.length := by
  obtain ⟨ts, steps, reading⟩ := h
  exact steps.length_lt reading.ne_nil

theorem legal (h : Read const levels c c₁ A a) : ∀ t ∈ a, t.Legal const levels := by
  obtain ⟨ts, _, reading⟩ := h
  exact reading.legal

theorem isConst {α : Type} {f : α → Tree Node} {as : List α}
    (h : Read true levels c c₁ A (as.map f)) : ∀ x ∈ as, (f x).IsConst := by
  intro x hx
  exact (h.legal (f x) (List.mem_map_of_mem hx)).isConst

theorem relax (h : Read true levels c c₁ A a) : Read const levels c c₁ A a := by
  obtain ⟨ts, steps, reading⟩ := h
  exact ⟨ts, steps, reading.relax⟩

theorem mono (h : Read const levels c c₁ A a) (sub : ∀ ks ∈ A, ks ∈ B) :
    Read const levels c c₁ B a := by
  obtain ⟨ts, steps, reading⟩ := h
  exact ⟨ts, steps, sub _ reading.spelled, reading.spans, reading.legal⟩

/-- A node with the origin that the parser gives it. -/
theorem node (n : Node) (h : Read const levels c c₁ n.spelling a) (tree : n.tree = .node n a)
    (origin : some ⟨c₁.source, c.current.start, c₁.lastEnd⟩ = n.origin?) (lawful : n.IsLawful)
    (sort : n.kind ≠ .document ∧ (const = true → n.kind ≠ .value .variable)) :
    Read const (levels + n.nests.toNat) c c₁ n.spelling [.node n a] := by
  obtain ⟨ts, steps, reading⟩ := h
  have some_token : ts ≠ [] := by
    rintro rfl
    exact lawful.nil_notMem_spelling reading.spelled
  rw [steps.origin some_token] at origin
  exact ⟨ts, steps, reading.node tree some_token origin.symm lawful sort⟩

end Read

@[simp] theorem TokenKind.isKeyword_iff {k : TokenKind} {word : String} :
    k.isKeyword word = true ↔ k = .name word := by
  cases k <;> simp [isKeyword]

namespace Parser

variable {α β : Type} {c c' : Cursor}

@[simp] theorem bind_ok {p : Parser α} {f : α → Parser β} {b : β} :
    (p >>= f) c = .ok (b, c') ↔ ∃ a c₁, p c = .ok (a, c₁) ∧ f a c₁ = .ok (b, c') := by
  simp only [bind, StateT.bind, Except.bind]
  cases p c with
  | error e => simp
  | ok r => obtain ⟨a, c₁⟩ := r; simp

/-- What comes after a step that succeeds goes on where it left off. -/
theorem bind_eq {p : Parser α} {f : α → Parser β} {a : α} (h : p c = .ok (a, c')) :
    (p >>= f) c = f a c' := by
  simp only [bind, StateT.bind, Except.bind, h]

theorem bind_result {p : Parser α} {f : α → Parser β} :
    (p >>= f) c = match p c with
      | .error e => .error e
      | .ok (a, c') => f a c' := by
  simp only [bind, StateT.bind, Except.bind]
  cases p c <;> rfl

theorem here_bind {f : Position → Parser β} : (here >>= f) c = f c.current.start c := rfl

theorem peek_bind {f : Token → Parser β} : (peek >>= f) c = f c.current c := rfl

theorem spanFrom_bind {start : Position} {f : Origin → Parser β} :
    (spanFrom start >>= f) c = f ⟨c.source, start, c.lastEnd⟩ c := rfl

theorem originOf_bind {t : Token} {f : Origin → Parser β} :
    (originOf t >>= f) c = f (t.origin c.source) c := rfl

theorem atMark_bind {m : Punctuator} {f : Bool → Parser β} :
    (atMark m >>= f) c = f (decide (c.current.kind = .punctuator m)) c := rfl

theorem atKeyword_bind {word : String} {f : Bool → Parser β} :
    (atKeyword word >>= f) c = f (c.current.kind.isKeyword word) c := rfl

@[simp] theorem map_ok {p : Parser α} {f : α → β} {b : β} :
    (f <$> p) c = .ok (b, c') ↔ ∃ a, p c = .ok (a, c') ∧ f a = b := by
  simp only [Functor.map, StateT.map, bind, Except.bind, pure, Except.pure]
  cases p c with
  | error e => simp
  | ok r => obtain ⟨a, c₁⟩ := r; simp; grind

@[simp] theorem pure_ok {a b : α} : (pure a : Parser α) c = .ok (b, c') ↔ a = b ∧ c = c' := by
  change Except.ok (a, c) = .ok (b, c') ↔ _
  rw [Except.ok.injEq, Prod.mk.injEq]

@[simp] theorem peek_ok {t : Token} : peek c = .ok (t, c') ↔ c.current = t ∧ c = c' := by
  simp only [peek, Except.ok.injEq, Prod.mk.injEq]

@[simp] theorem here_ok {p : Position} : here c = .ok (p, c') ↔ c.current.start = p ∧ c = c' := by
  simp only [here, Except.ok.injEq, Prod.mk.injEq]

@[simp] theorem spanFrom_ok {start : Position} {o : Origin} :
    spanFrom start c = .ok (o, c') ↔ ⟨c.source, start, c.lastEnd⟩ = o ∧ c = c' := by
  simp only [spanFrom, Except.ok.injEq, Prod.mk.injEq]

@[simp] theorem originOf_ok {t : Token} {o : Origin} :
    originOf t c = .ok (o, c') ↔ t.origin c.source = o ∧ c = c' := by
  simp only [originOf, Except.ok.injEq, Prod.mk.injEq]

@[simp] theorem atMark_ok {m : Punctuator} {b : Bool} :
    atMark m c = .ok (b, c') ↔ decide (c.current.kind = .punctuator m) = b ∧ c = c' := by
  simp only [atMark, Except.ok.injEq, Prod.mk.injEq]

@[simp] theorem atKeyword_ok {word : String} {b : Bool} :
    atKeyword word c = .ok (b, c') ↔ c.current.kind.isKeyword word = b ∧ c = c' := by
  simp only [atKeyword, Except.ok.injEq, Prod.mk.injEq]

@[simp] theorem fail_ok {v : Violation} {o : Origin} {r : α × Cursor} :
    fail v o c ≠ .ok r := by simp [fail]

@[simp] theorem unexpectedAt_ok {t : Token} {e : Option Expectation} {r : α × Cursor} :
    unexpectedAt t e c ≠ .ok r := by simp [unexpectedAt]

@[simp] theorem unexpected_ok {e : Option Expectation} {r : α × Cursor} :
    unexpected e c ≠ .ok r := by simp [unexpected]

@[simp] theorem tooDeep_ok {r : α × Cursor} : tooDeep c ≠ .ok r := by simp [tooDeep]

@[simp] theorem lifted_self {p : Parser α} : (liftM p : Parser α) = p := rfl

@[simp] theorem repeated_eq_collect {step : Parser (Option α)} : repeated step = collect step := rfl

/-- A loop whose first round goes on. -/
theorem collect_onward {step : Parser (Option α)}
    (onward : ∀ a d, step c = .ok (some a, d) → d.upcoming.length < c.upcoming.length) :
    collect step c = (do
      match ← step with
      | none => return []
      | some a => return a :: (← collect step) : Parser (List α)) c := by
  rw [bind_result, collect]
  rcases ran : step c with e | ⟨_ | a, c'⟩
  · rfl
  · rfl
  · simp only
    rw [if_pos (onward a c' ran), bind_result]
    cases collect step c' <;> rfl

@[simp] theorem parsing_inside {m : Punctuator} {o : Origin} {p : Parser α} :
    Parsing.inside m o p = inside m o p := rfl

@[simp] theorem nested_self {p : Parser α} : nested p = p := rfl

@[simp] theorem exhausted_eq_tooDeep : (exhausted : Parser α) = tooDeep := rfl

@[simp] theorem inside_ok {m : Punctuator} {o : Origin} {p : Parser α} {a : α} :
    inside m o p c = .ok (a, c') ↔ p c = .ok (a, c') := by
  unfold inside
  split <;> simp_all

theorem inside_eq {m : Punctuator} {o : Origin} {p : Parser α} {r : α × Cursor}
    (h : p c = .ok r) : inside m o p c = .ok r := by
  rw [inside, h]

@[simp] theorem expectEnd_ok {u : Unit} :
    expectEnd c = .ok (u, c') ↔ c.current.kind = .endOfInput ∧ c = c' := by
  simp only [expectEnd, bind_ok, peek_ok]
  constructor
  · rintro ⟨_, _, ⟨rfl, rfl⟩, h⟩
    split at h
    · next at_end => exact ⟨at_end, (pure_ok.mp h).2⟩
    · simp at h
  · rintro ⟨at_end, rfl⟩
    exact ⟨_, _, ⟨rfl, rfl⟩, by simp [at_end]⟩

/-- A value that opens no list and no object is a leaf. -/
theorem valueWith_leaf {position : Option ConstPosition} {p : Parser Value}
    (flat : c.current.kind ≠ .punctuator .openBracket ∧ c.current.kind ≠ .punctuator .openBrace) :
    valueWith position p c = leafValue position c := by
  rw [valueWith, lifted_self, peek_bind]
  generalize c.current.kind = k at flat
  cases k with
  | punctuator mark => cases mark <;> first | rfl | simp at flat
  | _ => rfl

end Parser
end GraphQL
