import GraphQL.Proofs.Nesting.Counter
import GraphQL.Proofs.Parser.Steps

/-! Two runs of one parser, one with a counter under a low limit and one with levels for a higher
limit: both end alike, or the first stops at a guarded call, and the other goes on from there. -/
namespace GraphQL

namespace Tree

variable {levels : Nat} {n : Node} {ts us : List (Tree Node)} {t : Tree Node}

/-- Some way down has more than so many levels. -/
def Exceeds (levels : Nat) (t : Tree Node) : Prop :=
  ∃ way ∈ t.branches, levels < way.countP (·.nests)

/-- Some way down one of the trees of a row has more than so many levels. -/
def RowExceeds (levels : Nat) (ts : List (Tree Node)) : Prop := ∃ t ∈ ts, t.Exceeds levels

@[simp, grind =] theorem rowExceeds_nil : RowExceeds levels [] ↔ False := by simp [RowExceeds]

@[simp, grind =] theorem rowExceeds_cons :
    RowExceeds levels (t :: ts) ↔ t.Exceeds levels ∨ RowExceeds levels ts := by
  simp [RowExceeds]

@[simp, grind =] theorem rowExceeds_append :
    RowExceeds levels (ts ++ us) ↔ RowExceeds levels ts ∨ RowExceeds levels us := by
  simp [RowExceeds, or_and_right, exists_or]

theorem not_exceeds :
    ¬ t.Exceeds levels ↔ ∀ way ∈ t.branches, way.countP (·.nests) ≤ levels := by
  simp [Exceeds]

theorem not_rowExceeds : ¬ RowExceeds levels ts ↔
    ∀ t ∈ ts, ∀ way ∈ t.branches, way.countP (·.nests) ≤ levels := by
  simp [RowExceeds, Exceeds]

/-- A node that does not nest goes as deep as what is below it. -/
theorem exceeds_flat (flat : n.nests = false) :
    (node n ts).Exceeds levels ↔ RowExceeds levels ts := by
  rw [← not_iff_not, not_exceeds, not_rowExceeds]
  simp [nesting_node, flat]

/-- A node that nests goes deeper than what is below it. -/
theorem exceeds_nested (nested : n.nests = true) :
    (node n ts).Exceeds (levels + 1) ↔ RowExceeds levels ts := by
  rw [← not_iff_not, not_exceeds, not_rowExceeds]
  simp [nesting_node, nested]

theorem rowExceeds_flat (n : Node) (tree : n.tree = node n ts) (flat : n.nests = false)
    (h : RowExceeds levels ts) : RowExceeds levels [n.tree] := by
  rw [tree, rowExceeds_cons, exceeds_flat flat]
  exact .inl h

theorem exceeds_zero (nested : n.nests = true) : (node n ts).Exceeds 0 := by
  by_contra h
  obtain ⟨below, levels, -⟩ := nesting_node.mp (not_exceeds.mp h)
  simp [nested] at levels

theorem tree_eq_node (n : Node) : n.tree = node n n.tree.children := by
  have label := n.label_tree
  cases tree : n.tree with
  | node n' ts =>
    rw [tree] at label
    exact congrArg (node · ts) label

theorem rowExceeds_nested (n : Node) (nested : n.nests = true) :
    RowExceeds (levels + 1) [n.tree] ↔ RowExceeds levels n.tree.children := by
  rw [tree_eq_node n, rowExceeds_cons, exceeds_nested nested]
  simp [children]

theorem rowExceeds_zero (n : Node) (nested : n.nests = true) : RowExceeds 0 [n.tree] := by
  rw [tree_eq_node n, rowExceeds_cons]
  exact .inl (exceeds_zero nested)

end Tree

namespace Cursor

/-- The same place under another limit. -/
def limited (c : Cursor) (limit : Nat) : Cursor := { c with limit }

@[simp] theorem limited_pending (c : Cursor) (limit : Nat) : (c.limited limit).pending = c.pending :=
  rfl

theorem limited_current (c : Cursor) (limit : Nat) : (c.limited limit).current = c.current := rfl

@[simp] theorem limited_limited (c : Cursor) (a b : Nat) : (c.limited a).limited b = c.limited b :=
  rfl

theorem limited_of_limit {c : Cursor} {limit : Nat} (h : c.limit = limit) : c.limited limit = c := by
  subst h
  rfl

/-- A place in the same stream, not before this one. -/
structure Reaches (c c' : Cursor) : Prop where
  pending : c'.pending <:+ c.pending
  source : c'.source = c.source
  failure : c'.failure = c.failure
  limit : c'.limit = c.limit

/-- The stream can be relied on, and no error of the scanner is one of nesting. -/
structure Sound (c : Cursor) : Prop where
  ready : c.Ready
  lexical : ∀ e ∈ c.failure, ∀ limit, e.violation ≠ .nesting limit

variable {c c₁ c₂ : Cursor}

theorem Reaches.refl (c : Cursor) : c.Reaches c := ⟨List.suffix_rfl, rfl, rfl, rfl⟩

theorem Reaches.trans (h : c.Reaches c₁) (h' : c₁.Reaches c₂) : c.Reaches c₂ :=
  ⟨h'.pending.trans h.pending, h'.source.trans h.source, h'.failure.trans h.failure,
    h'.limit.trans h.limit⟩

theorem Reaches.limited (h : c.Reaches c₁) (limit : Nat) :
    (c.limited limit).Reaches (c₁.limited limit) := ⟨h.pending, h.source, h.failure, rfl⟩

theorem Reaches.ready (h : c.Reaches c₁) (ready : c.Ready) : c₁.Ready := by
  obtain ⟨ts, pending⟩ := h.pending
  constructor
  · intro none t ht
    apply ready.ends (h.failure ▸ none)
    rw [← pending, List.getLast?_append, Option.mem_def.mp ht]
    rfl
  · intro t ht
    exact ready.names t (h.pending.mem ht)

theorem Reaches.sound (h : c.Reaches c₁) (sound : c.Sound) : c₁.Sound where
  ready := h.ready sound.ready
  lexical := by
    rw [h.failure]
    exact sound.lexical

theorem Sound.limited (sound : c.Sound) (limit : Nat) : (c.limited limit).Sound :=
  ⟨⟨sound.ready.ends, sound.ready.names⟩, sound.lexical⟩

end Cursor

/-- An error at a token that is not consumed yet, or the one that cuts the stream off. -/
def SyntaxError.At (c : Cursor) (e : SyntaxError) : Prop :=
  (∃ t ∈ c.pending, e.origin.start = t.start) ∨ ∃ f ∈ c.failure, e.origin.start = f.origin.start

theorem SyntaxError.At.before {c c₁ : Cursor} {e : SyntaxError} (h : e.At c₁) (r : c.Reaches c₁) :
    e.At c := by
  rcases h with ⟨t, ht, place⟩ | ⟨f, hf, place⟩
  · exact .inl ⟨t, r.pending.mem ht, place⟩
  · exact .inr ⟨f, r.failure ▸ hf, place⟩

theorem SyntaxError.at_current {c : Cursor} {e : SyntaxError}
    (h : e.origin.start = c.current.start) : e.At c :=
  .inl ⟨c.current, by simp [Cursor.pending], h⟩

namespace Parser

open GraphQL.Tree

variable {α β : Type} {c c₁ : Cursor}

/-- A result that lies ahead: a place that is reached, with something true of what was found, or an
error at something not consumed yet. -/
def Ahead (c : Cursor) (P : α → Prop) : Except SyntaxError (α × Cursor) → Prop
  | .ok (a, c') => c.Reaches c' ∧ P a
  | .error e => e.At c

theorem Ahead.mono {P Q : α → Prop} {x : Except SyntaxError (α × Cursor)} (h : Ahead c P x)
    (sub : ∀ a, P a → Q a) : Ahead c Q x := by
  match x, h with
  | .ok (a, c'), ⟨r, holds⟩ => exact ⟨r, sub a holds⟩
  | .error e, place => exact place

theorem Ahead.before {P : α → Prop} {x : Except SyntaxError (α × Cursor)} (h : Ahead c₁ P x)
    (r : c.Reaches c₁) : Ahead c P x := by
  match x, h with
  | .ok (a, c'), ⟨r', holds⟩ => exact ⟨r.trans r', holds⟩
  | .error e, place => exact SyntaxError.At.before place r

/-- The error of a guarded call that may not be made, which `tooDeep` reports. -/
def tooDeepAt (c : Cursor) : SyntaxError := ⟨.nesting c.limit, c.current.origin c.source, []⟩

/-- How the results of two runs compare. The first had `l` levels left and a room of `n` tokens to
spare for each, the other had `m` levels under the limit `limit`. The trees of what is found go
deeper than `l` levels if those of `D` do. -/
inductive Outcome (c : Cursor) (limit l m n : Nat) (D : Prop) (trees : α → List (Tree Node)) :
    Except SyntaxError (α × Cursor) → Except SyntaxError (α × Cursor) → Prop
  | same {a : α} {c' : Cursor} (reaches : c.Reaches c') (deep : D → RowExceeds l (trees a)) :
    Outcome c limit l m n D trees (.ok (a, c')) (.ok (a, c'.limited limit))
  | fails {e : SyntaxError} (place : e.At c) (other : ∀ limit, e.violation ≠ .nesting limit) :
    Outcome c limit l m n D trees (.error e) (.error e)
  | stops {c₁ : Cursor} {y : Except SyntaxError (α × Cursor)} (reaches : c.Reaches c₁)
    (room : l + n + c₁.pending.length ≤ c.pending.length)
    (ahead : Ahead (c₁.limited limit) (fun a => RowExceeds l (trees a)) y)
    (alike : l = m → y = .error (tooDeepAt c₁)) :
    Outcome c limit l m n D trees (.error (tooDeepAt c₁)) y

/-- What the run with more levels does is ahead in any case. -/
theorem Outcome.ahead {limit l m n : Nat} {D : Prop} {trees : α → List (Tree Node)}
    {x y : Except SyntaxError (α × Cursor)} (h : Outcome c limit l m n D trees x y) :
    Ahead (c.limited limit) (fun a => D → RowExceeds l (trees a)) y := by
  cases h with
  | same reaches deep => exact ⟨reaches.limited limit, deep⟩
  | fails place other => exact place
  | stops reaches room ahead alike =>
    exact (ahead.before (reaches.limited limit)).mono fun a deep _ => deep

end Parser

/-- The counter never went above a limit, and every call left it as it was. -/
structure Register.Fits (limit : Nat) (r : Register) : Prop where
  peak : r.peak ≤ limit
  calls : ∀ call ∈ r.calls, call.1 = call.2

namespace Parser

open GraphQL.Tree

variable {α β : Type} {c c₁ : Cursor} {r : Register} {l m n : Nat} {D : Prop}
  {trees : α → List (Tree Node)} {trees' : β → List (Tree Node)}

/-- A run with a counter that ends with the counter as it was, next to one with levels. -/
structure Settled (c : Cursor) (r : Register) (l m n : Nat) (D : Prop)
    (trees : α → List (Tree Node)) (x : Except SyntaxError (α × Cursor) × Register)
    (y : Except SyntaxError (α × Cursor)) : Prop where
  depth : x.2.depth = r.depth
  fits : x.2.Fits c.limit
  outcome : Outcome c (r.depth + m) l m n D trees x.1 y

/-- Wherever two parsers are run with `l` levels left by the counter for the first and `m` levels
for the other, their results compare. -/
def Settles (l m n : Nat) (D : Prop) (trees : α → List (Tree Node)) (p : Metered α)
    (q : Parser α) : Prop :=
  ∀ ⦃c : Cursor⦄ ⦃r : Register⦄, c.Sound → r.depth + l = c.limit → r.Fits c.limit →
    Settled c r l m n D trees (p c r) (q (c.limited (r.depth + m)))

/-- A run from `c` to which the limit of nesting is nothing, with no error before `c₀`. -/
structure PlainRun (c₀ c : Cursor) (p : Parser α) : Prop where
  ahead : Ahead c₀ (fun _ => True) (p c)
  other : c.Sound → ∀ e, p c = .error e → ∀ limit, e.violation ≠ .nesting limit
  limited : ∀ limit, p (c.limited limit) = (p c).map fun (a, c') => (a, c'.limited limit)

/-- A parser that has only such runs. -/
def Plain (p : Parser α) : Prop := ∀ c, PlainRun c c p

section Plain

variable {c₀ : Cursor} {p q : Parser α} {f : α → Parser β}

theorem PlainRun.before (h : PlainRun c₁ c p) (reaches : c₀.Reaches c₁) : PlainRun c₀ c p :=
  ⟨h.ahead.before reaches, h.other, h.limited⟩

theorem PlainRun.congr (h : PlainRun c₀ c q)
    (same : ∀ limit, p (c.limited limit) = q (c.limited limit)) : PlainRun c₀ c p := by
  have here : p c = q c := same c.limit
  constructor
  · rw [here]
    exact h.ahead
  · rw [here]
    exact h.other
  · intro limit
    rw [same, here]
    exact h.limited limit

/-- A step that only looks at where it is. -/
theorem PlainRun.look {f : Cursor → α} (same : ∀ limit, f (c.limited limit) = f c)
    (reaches : c₀.Reaches c) : PlainRun c₀ c fun c => .ok (f c, c) where
  ahead := ⟨reaches, trivial⟩
  other := by
    intro sound e failed
    cases failed
  limited limit := by
    change Except.ok _ = Except.ok _
    rw [same]

theorem PlainRun.pure (reaches : c₀.Reaches c) (a : α) : PlainRun c₀ c (pure a) :=
  .look (fun _ => rfl) reaches

/-- An error where an earlier token stands. -/
theorem PlainRun.fail {v : Violation} {o : Origin} {t : Token} (place : t ∈ c₀.pending)
    (start : o.start = t.start) (other : ∀ limit, v ≠ .nesting limit) :
    PlainRun c₀ c (fail v o : Parser α) where
  ahead := .inl ⟨t, place, start⟩
  other := by
    intro sound e failed
    cases failed
    exact other
  limited limit := rfl

theorem PlainRun.bind (reaches : c₀.Reaches c) (first : PlainRun c c p)
    (rest : ∀ ⦃a c'⦄, p c = .ok (a, c') → c.Reaches c' → PlainRun c₀ c' (f a)) :
    PlainRun c₀ c (p >>= f) := by
  have reached := first.ahead
  match ran : p c with
  | .error e =>
    rw [ran] at reached
    constructor
    · rw [bind_result, ran]
      exact reached.before reaches
    · intro sound e' failed
      rw [bind_result, ran] at failed
      cases failed
      exact first.other sound e ran
    · intro limit
      rw [bind_result, bind_result, first.limited, ran]
      rfl
  | .ok (a, c') =>
    rw [ran] at reached
    have go := rest ran reached.1
    constructor
    · rw [bind_result, ran]
      exact go.ahead
    · intro sound e failed
      rw [bind_result, ran] at failed
      exact go.other (reached.1.sound sound) e failed
    · intro limit
      rw [bind_result, bind_result, first.limited, ran]
      exact go.limited limit

namespace Plain

theorem look {f : Cursor → α} (same : ∀ c limit, f (c.limited limit) = f c) :
    Plain fun c => .ok (f c, c) := fun c => .look (same c) (.refl c)

theorem pure (a : α) : Plain (pure a : Parser α) := fun c => .pure (.refl c) a

theorem bind (h : Plain p) (rest : ∀ a, Plain (f a)) : Plain (p >>= f) :=
  fun c => (h c).bind (.refl c) fun a c' _ reaches => (rest a c').before reaches

theorem ite {b : Prop} [Decidable b] (yes : b → Plain p) (no : ¬ b → Plain q) :
    Plain (if b then p else q) := by
  split
  · next h => exact yes h
  · next h => exact no h

theorem here : Plain here := look fun _ _ => rfl

theorem peek : Plain peek := look fun _ _ => rfl

theorem spanFrom (start : Position) : Plain (spanFrom start) := look fun _ _ => rfl

theorem originOf (t : Token) : Plain (originOf t) := look fun _ _ => rfl

theorem atMark (m : Punctuator) : Plain (atMark m) := look fun _ _ => rfl

theorem atKeyword (word : String) : Plain (atKeyword word) := look fun _ _ => rfl

theorem unexpected (expected : Option Expectation) : Plain (unexpected expected : Parser α) :=
  fun c => PlainRun.congr (q := fail (.unexpected expected c.current.kind) (c.current.origin c.source))
    (.fail (t := c.current) (by simp [Cursor.pending]) rfl (by simp)) fun _ => rfl

theorem consume : Plain consume := by
  intro c
  constructor
  · unfold Parser.consume
    split
    · next t ts upcoming =>
      exact ⟨⟨by simp [Cursor.pending, upcoming], rfl, rfl, rfl⟩, trivial⟩
    · split
      · next e failure => exact .inr ⟨e, failure, rfl⟩
      · next upcoming _ _ => exact ⟨⟨by simp [Cursor.pending], rfl, rfl, rfl⟩, trivial⟩
  · intro sound e failed
    unfold Parser.consume at failed
    split at failed
    · cases failed
    · split at failed
      · next failure =>
        cases failed
        exact sound.lexical e failure
      · cases failed
  · intro limit
    unfold Parser.consume
    simp only [Cursor.limited]
    split
    · rfl
    · split <;> rfl

end Plain

end Plain

theorem metered_bind {p : Metered α} {f : α → Metered β} :
    (p >>= f) c r = match p c r with
      | (.error e, r') => (.error e, r')
      | (.ok (a, c'), r') => f a c' r' := by
  simp only [bind, StateT.bind, ExceptT.bind, ExceptT.mk, ExceptT.bindCont]
  cases p c r with
  | mk x r' => cases x <;> rfl

theorem metered_lift {p : Parser α} : (liftM p : Metered α) c r = (p c, r) := rfl

theorem metered_peek_bind {f : Token → Metered β} :
    ((liftM peek : Metered Token) >>= f) c r = f c.current c r := rfl

/-- What comes after some tokens comes after what stands in front of them, and those tokens add to
the room. -/
theorem Settled.before {n₁ : Nat} {r₁ : Register} {D' : Prop}
    {x : Except SyntaxError (α × Cursor) × Register} {y : Except SyntaxError (α × Cursor)}
    (h : Settled c₁ r₁ l m n₁ D' trees x y) (reaches : c.Reaches c₁)
    (room : n + c₁.pending.length ≤ n₁ + c.pending.length) (depth : r₁.depth = r.depth)
    (sub : D → D') : Settled c r l m n D trees x y := by
  obtain ⟨x, r'⟩ := x
  obtain ⟨same, fits, outcome⟩ := h
  refine ⟨same.trans depth, reaches.limit ▸ fits, ?_⟩
  rw [depth] at outcome
  cases outcome with
  | same reaches' deep => exact .same (reaches.trans reaches') fun d => deep (sub d)
  | fails place other => exact .fails (place.before reaches) other
  | stops reaches' room' ahead alike =>
    exact .stops (reaches.trans reaches') (by omega) ahead alike

/-- If the first run stops in the first part, the other does the second part alone. -/
theorem Settled.bind {p : Metered α} {q : Parser α} {f : α → Metered β} {g : α → Parser β}
    {limit : Nat} (room : α → Nat) (sum : r.depth + m = limit)
    (first : Settled c r l m n False trees (p c r) (q (c.limited limit)))
    (rest : ∀ ⦃a c' r'⦄, q (c.limited limit) = .ok (a, c'.limited limit) → c.Reaches c' →
      r'.depth = r.depth → r'.Fits c.limit →
        n + c'.pending.length ≤ room a + c.pending.length ∧
          Settled c' r' l m (room a) (D ∨ RowExceeds l (trees a)) trees' (f a c' r')
            (g a (c'.limited limit))) :
    Settled c r l m n D trees' ((p >>= f) c r) ((q >>= g) (c.limited limit)) := by
  subst sum
  obtain ⟨depth, fits, outcome⟩ := first
  rw [metered_bind, bind_result]
  generalize q (c.limited (r.depth + m)) = y at outcome rest
  generalize p c r = z at depth fits outcome
  obtain ⟨x, r'⟩ := z
  cases outcome with
  | same reaches deep =>
    obtain ⟨room, go⟩ := rest rfl reaches depth fits
    exact go.before reaches room depth .inl
  | fails place other => exact ⟨depth, fits, .fails place other⟩
  | @stops c₁ y reaches room ahead alike =>
    refine ⟨depth, fits, .stops reaches room ?_ fun same => by rw [alike same]⟩
    match y, ahead with
    | .error e, place => exact place
    | .ok (a, c₂), ⟨onward, deep⟩ =>
      have back : (c₂.limited c.limit).limited (r.depth + m) = c₂ :=
        Cursor.limited_of_limit onward.limit
      have onward' : c.Reaches (c₂.limited c.limit) :=
        reaches.trans ⟨onward.pending, onward.source, onward.failure, reaches.limit.symm⟩
      obtain ⟨-, go⟩ := rest (by rw [back]) onward' depth fits
      have alone := go.outcome.ahead
      rw [depth, back] at alone
      exact (alone.before onward).mono fun b deeper => deeper (.inr deep)

theorem Settled.pure {limit : Nat} {a : α} (fits : r.Fits c.limit) (sum : r.depth + m = limit)
    (deep : D → RowExceeds l (trees a)) :
    Settled c r l m n D trees (.ok (a, c), r) (.ok (a, c.limited limit)) := by
  subst sum
  exact ⟨rfl, fits, .same (.refl c) deep⟩

theorem Settled.map {p : Metered α} {q : Parser α} {f : α → β} {limit : Nat}
    (sum : r.depth + m = limit)
    (h : Settled c r l m n False trees (p c r) (q (c.limited limit)))
    (sub : ∀ a, D ∨ RowExceeds l (trees a) → RowExceeds l (trees' (f a))) :
    Settled c r l m n D trees' ((f <$> p) c r) ((f <$> q) (c.limited limit)) := by
  rw [map_eq_pure_bind, map_eq_pure_bind]
  apply h.bind (fun _ => n) sum
  intro a c' r' ran reaches depth fits
  have := reaches.pending.length_le
  exact ⟨by omega, .pure (reaches.limit.symm ▸ fits) (by rw [depth, sum]) (sub a)⟩

/-- The token after the current one may be looked at, and is where the error stands if none fits. -/
theorem Settled.lookahead_bind {f : Token → Metered β} {g : Token → Parser β} {limit : Nat}
    (sound : c.Sound) (fits : r.Fits c.limit)
    (rest : ∀ t ∈ c.pending, Settled c r l m n D trees' (f t c r) (g t (c.limited limit))) :
    Settled c r l m n D trees' ((liftM lookahead >>= f) c r) ((lookahead >>= g) (c.limited limit)) := by
  have found : (∃ t ∈ c.pending, ∀ limit,
      lookahead (c.limited limit) = .ok (t, c.limited limit)) ∨
        ∃ e ∈ c.failure, ∀ limit, lookahead (c.limited limit) = .error e := by
    unfold lookahead Cursor.limited Cursor.pending
    cases c.upcoming with
    | cons t ts => exact .inl ⟨t, by simp, fun _ => rfl⟩
    | nil =>
      cases c.failure with
      | some e => exact .inr ⟨e, rfl, fun _ => rfl⟩
      | none => exact .inl ⟨c.current, by simp, fun _ => rfl⟩
  rw [metered_bind, metered_lift]
  rcases found with ⟨t, place, ran⟩ | ⟨e, failure, ran⟩
  · have here : lookahead c = .ok (t, c) := ran c.limit
    rw [here, bind_eq (ran _)]
    exact rest t place
  · have here : lookahead c = .error e := ran c.limit
    rw [here, bind_result, ran]
    exact ⟨rfl, fits, .fails (.inr ⟨e, failure, rfl⟩) (sound.lexical e failure)⟩

namespace Settles

theorem pure {a : α} (deep : D → RowExceeds l (trees a)) :
    Settles l m n D trees (pure a) (pure a) :=
  fun _ _ _ _ fits => .pure fits rfl deep

theorem bind {p : Metered α} {q : Parser α} {f : α → Metered β} {g : α → Parser β}
    (h : Settles l m n False trees p q)
    (rest : ∀ a, Settles l m n (D ∨ RowExceeds l (trees a)) trees' (f a) (g a)) :
    Settles l m n D trees' (p >>= f) (q >>= g) := by
  intro c r sound level fits
  apply (h sound level fits).bind (fun _ => n) rfl
  intro a c' r' ran reaches depth fits'
  have go := rest a (reaches.sound sound) (by rw [depth, level, reaches.limit])
    (reaches.limit.symm ▸ fits')
  have := reaches.pending.length_le
  rw [depth] at go
  exact ⟨by omega, go⟩

theorem map {p : Metered α} {q : Parser α} {f : α → β}
    (h : Settles l m n False trees p q)
    (sub : ∀ a, RowExceeds l (trees a) → RowExceeds l (trees' (f a))) :
    Settles l m n False trees' (f <$> p) (f <$> q) :=
  fun _ _ sound level fits => (h sound level fits).map rfl fun a deep => sub a (deep.resolve_left id)

theorem ite {b : Prop} [Decidable b] {p p' : Metered α} {q q' : Parser α}
    (yes : b → Settles l m n D trees p q) (no : ¬ b → Settles l m n D trees p' q') :
    Settles l m n D trees (if b then p else p') (if b then q else q') := by
  split
  · next h => exact yes h
  · next h => exact no h

/-- Less room may be asked for. -/
theorem lessRoom {p : Metered α} {q : Parser α} (h : Settles l m (n + 1) D trees p q) :
    Settles l m n D trees p q := by
  intro c r sound level fits
  obtain ⟨depth, fits', outcome⟩ := h sound level fits
  refine ⟨depth, fits', ?_⟩
  generalize (p c r).1 = x, q (c.limited (r.depth + m)) = y at outcome
  cases outcome with
  | same reaches deep => exact .same reaches deep
  | fails place other => exact .fails place other
  | stops reaches room ahead alike => exact .stops reaches (by omega) ahead alike

/-- A parser that the limit is nothing to does the same in both runs. -/
theorem plain {p : Parser α} (h : Plain p) : Settles l m n False trees (liftM p) p := by
  intro c r sound level fits
  refine ⟨rfl, fits, ?_⟩
  change Outcome c _ l m n False trees (p c) (p (c.limited _))
  rw [(h c).limited]
  have ahead := (h c).ahead
  match ran : p c with
  | .ok (a, c') =>
    rw [ran] at ahead
    exact .same ahead.1 False.elim
  | .error e =>
    rw [ran] at ahead
    exact .fails ahead ((h c).other sound e ran)

theorem unexpected (expected : Option Expectation) :
    Settles l m n D trees (liftM (unexpected expected : Parser α)) (unexpected expected) :=
  fun _ _ _ _ fits => ⟨rfl, fits, .fails (SyntaxError.at_current rfl) (by simp)⟩

theorem plain_bind {p : Parser α} {f : α → Metered β} {g : α → Parser β} (h : Plain p)
    (rest : ∀ a, Settles l m n D trees' (f a) (g a)) :
    Settles l m n D trees' (liftM p >>= f) (p >>= g) := by
  have first : Settles l m n False (fun _ => []) (liftM p) p := plain h
  apply first.bind
  intro a
  simpa using rest a

theorem plain_map_bind {γ : Type} {p : Parser γ} {φ : γ → α} {f : α → Metered β} {g : α → Parser β}
    (h : Plain p) (rest : ∀ a, Settles l m n D trees' (f a) (g a)) :
    Settles l m n D trees' (φ <$> liftM p >>= f) (φ <$> p >>= g) := by
  have read : Settles l m n False (fun _ => []) (liftM p) p := plain h
  have first : Settles l m n False (fun _ => []) (φ <$> liftM p) (φ <$> p) := read.map fun _ => id
  apply first.bind
  intro a
  simpa using rest a

/-- A step that consumes something makes room. -/
theorem consuming_bind {p : Parser α} {f : α → Metered β} {g : α → Parser β} (room : α → Nat)
    (h : Plain p)
    (consumes : ∀ ⦃c c' a⦄, c.Ready → p c = .ok (a, c') →
      n + c'.pending.length ≤ room a + c.pending.length)
    (rest : ∀ a, Settles l m (room a) D trees' (f a) (g a)) :
    Settles l m n D trees' (liftM p >>= f) (p >>= g) := by
  intro c r sound level fits
  have first : Settles l m n False (fun _ => []) (liftM p) p := plain h
  apply (first sound level fits).bind room rfl
  intro a c' r' ran reaches depth fits'
  have go := rest a (reaches.sound sound) (by rw [depth, level, reaches.limit])
    (reaches.limit.symm ▸ fits')
  rw [depth] at go
  have room := consumes (sound.limited (r.depth + m)).ready ran
  exact ⟨room, by simpa using go⟩

end Settles

end Parser
end GraphQL
