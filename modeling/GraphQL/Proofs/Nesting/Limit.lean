import GraphQL.Proofs.Nesting.Productions
import GraphQL.Proofs.Scanner.Faults
import GraphQL.Proofs.Sound.Program

/-! The limit of nesting refuses what is nested too deep, and changes nothing else. -/
namespace GraphQL

variable {α : Type}

/-- What is read without a limit: no text is nested deeper than it has tokens. -/
def unlimited (read : Nat → Source → Except SyntaxError α) (s : Source) : Except SyntaxError α :=
  read s.tokens.tokens.length s

/-- A limit of nesting refuses what has too many levels on some way down, and else what is read is
what is read without a limit. A counter that calls raise and lower has the same effect. -/
structure OnlyRefusesDeep (read : Nat → Source → Except SyntaxError α)
    (counted : Nat → Nat → Source → Except SyntaxError α × Register) (tree : α → Tree Node)
    (limit : Nat) (s : Source) : Prop where
  /-- Higher limits are no limits. -/
  settled : ∀ more ≥ s.tokens.tokens.length, read more s = unlimited read s
  /-- Without a limit no text is nested too deep. -/
  unrefused : ∀ e, unlimited read s = .error e → ∀ k, e.violation ≠ .nesting k
  shallow : ∀ a, unlimited read s = .ok a →
    (∀ way ∈ (tree a).branches, way.countP (·.nests) ≤ limit) → read limit s = .ok a
  deep : ∀ a, unlimited read s = .ok a →
    (∃ way ∈ (tree a).branches, limit < way.countP (·.nests)) →
      ∃ e, read limit s = .error e ∧ e.violation = .nesting limit
  faulty : ∀ e, unlimited read s = .error e → read limit s = .error e ∨
    ∃ e', read limit s = .error e' ∧ e'.violation = .nesting limit ∧
      e'.origin.start.offset ≤ e.origin.start.offset
  /-- The counter never exceeds the limit, each guarded call leaves it as it was, and in the end it
  is at zero. -/
  counter : ∀ calls > limit, (counted calls limit s).1 = read limit s ∧
    (counted calls limit s).2.depth = 0 ∧ (counted calls limit s).2.Fits limit

namespace Parser

open GraphQL.Tree

variable {s : Source} {c : Cursor} {l m : Nat} {tree : α → Tree Node}

theorem sound_of_opens (opens : c.Opens s) : c.Sound where
  ready := opens.ready
  lexical := by
    intro e failure limit nesting
    rw [opens.failure] at failure
    have lexical := (Scanner.start s).tokens_fault e failure
    rw [nesting] at lexical
    exact lexical

/-- A run starts at the first token, or fails if there is none. -/
theorem run_starts (s : Source) :
    (∃ e ∈ s.tokens.failure, ∀ (limit : Nat) (q : Parser α) (p : Metered α),
      run q s limit = .error e ∧ Metered.run p s limit = (.error e, .zero)) ∨
    ∃ c : Cursor, c.Opens s ∧ ∀ (limit : Nat) (q : Parser α) (p : Metered α),
      run q s limit = (q (c.limited limit)).map (·.1) ∧
      Metered.run p s limit =
        ((p (c.limited limit) .zero).1.map (·.1), (p (c.limited limit) .zero).2) := by
  cases stream : s.tokens.tokens with
  | nil =>
    obtain ⟨ts, -, ⟨-, cut⟩ | ⟨e, all, -⟩⟩ := (Scanner.start s).tokens_words
    · obtain ⟨e, failure⟩ := Option.ne_none_iff_exists'.mp cut
      refine .inl ⟨e, failure, fun limit q p => ?_⟩
      have failed : consume (start s limit) = .error e := by
        simp only [consume, start, stream]
        rw [Source.tokens, failure]
      constructor
      · rw [run, bind_result, failed]
      · rw [Metered.run, metered_bind, metered_lift, failed]
    · simp [Source.tokens, all] at stream
  | cons t ts =>
    refine .inr ⟨⟨s, 0, t, ts, s.tokens.failure, .first⟩, ⟨rfl, stream.symm, rfl⟩,
      fun limit q p => ?_⟩
    have consumed : consume (start s limit) = .ok (⟨.startOfInput, .first, .first⟩,
        ⟨s, limit, t, ts, s.tokens.failure, .first⟩) := by
      simp only [consume, start, stream]
    constructor
    · rw [run, bind_result, consumed]
      simp only [Cursor.limited]
      split <;> simp_all [Except.map]
    · rw [Metered.run, metered_bind, metered_lift, consumed]
      simp only [Cursor.limited]
      split <;> simp_all [Except.map]

/-- With as many levels as the counter has left, a parser has the same result. -/
theorem Outcome.same_result {limit n : Nat} {D : Prop} {trees : α → List (Tree Node)}
    {x y : Except SyntaxError (α × Cursor)} (h : Outcome c limit l l n D trees x y) :
    x.map (·.1) = y.map (·.1) := by
  cases h with
  | same reaches deep => rfl
  | fails place other => rfl
  | stops reaches room ahead alike => rw [alike rfl]

/-- Where the first run stops is not behind an error of the other run. -/
theorem stop_before {c₁ : Cursor} {e : SyntaxError} (opens : c.Opens s)
    (pending : c₁.pending <:+ c.pending) (failure : c₁.failure = c.failure) (place : e.At c₁) :
    c₁.current.start.offset ≤ e.origin.start.offset := by
  have ordered := (Scanner.start s).tokens_ordered
  rw [← Source.tokens] at ordered
  have here : c₁.current ∈ c.pending := pending.mem (by simp [Cursor.pending])
  rw [opens.pending] at pending here
  rcases place with ⟨t, later, start⟩ | ⟨f, cut, start⟩
  · rw [start]
    rcases List.mem_cons.mp later with rfl | later
    · exact le_rfl
    · have sorted := ordered.pairwise.sublist pending.sublist
      exact List.rel_of_pairwise_cons sorted later
  · rw [start]
    rw [failure, opens.failure] at cut
    exact (ordered.fault f cut).2 _ here

/-- How what is read within `l` levels compares with what is read within more, in a text of so many
tokens. -/
inductive Compares (l tokens : Nat) (tree : α → Tree Node) :
    Except SyntaxError α → Except SyntaxError α → Prop
  | same (a : α) : Compares l tokens tree (.ok a) (.ok a)
  | fails {e : SyntaxError} (other : ∀ k, e.violation ≠ .nesting k) :
    Compares l tokens tree (.error e) (.error e)
  | stops {e : SyntaxError} {y : Except SyntaxError α} (nesting : e.violation = .nesting l)
    (few : l < tokens) (deep : ∀ a, y = .ok a → (tree a).Exceeds l)
    (first : ∀ e', y = .error e' → e.origin.start.offset ≤ e'.origin.start.offset) :
    Compares l tokens tree (.error e) y

/-- The results of two runs compare as the runs do. -/
theorem Outcome.compares {x y : Except SyntaxError (α × Cursor)} (opens : c.Opens s)
    (h : Outcome (c.limited l) m l m 0 False (fun a => [tree a]) x y) :
    Compares l s.tokens.tokens.length tree (x.map (·.1)) (y.map (·.1)) := by
  cases h with
  | same reaches deep => exact .same _
  | fails place other => exact .fails other
  | @stops c₁ y reaches room ahead alike =>
    refine .stops (congrArg Violation.nesting reaches.limit) ?_ ?_ ?_
    · have tokens : (c.limited l).pending.length = s.tokens.tokens.length :=
        congrArg List.length opens.pending
      have some_token : 0 < c₁.pending.length := Nat.succ_pos _
      omega
    · intro a found
      cases y with
      | error e => cases found
      | ok r =>
        obtain rfl : r.1 = a := Except.ok.inj found
        simpa using ahead.2
    · intro e failed
      cases y with
      | ok r => cases failed
      | error e' =>
        obtain rfl : e' = e := Except.error.inj failed
        exact stop_before opens reaches.pending reaches.failure ahead

section Readers

variable {p : Nat → Metered α} {q : Nat → Parser α}
  (settles : ∀ {l m calls : Nat}, l ≤ m → l < calls →
    Settles l m 0 False (fun a => [tree a]) (p calls) (q m))
include settles

/-- The counter is at zero in the end and fits the limit, and the result is that of as many
levels. -/
theorem counted_run {limit calls : Nat} (enough : limit < calls) (s : Source) :
    (Metered.run (p calls) s limit).1 = run (q limit) s limit ∧
      (Metered.run (p calls) s limit).2.depth = 0 ∧
      (Metered.run (p calls) s limit).2.Fits limit := by
  have zero : Register.zero.Fits limit := ⟨Nat.zero_le _, by simp [Register.zero]⟩
  rcases run_starts (α := α) s with ⟨e, failure, ran⟩ | ⟨c, opens, ran⟩
  · obtain ⟨first, second⟩ := ran limit (q limit) (p calls)
    rw [first, second]
    exact ⟨rfl, rfl, zero⟩
  · obtain ⟨first, second⟩ := ran limit (q limit) (p calls)
    obtain ⟨depth, fits, outcome⟩ := settles (Nat.le_refl limit) enough
      ((sound_of_opens opens).limited limit) (Nat.zero_add limit) zero
    have sum : Register.zero.depth + limit = limit := Nat.zero_add limit
    rw [sum, Cursor.limited_limited] at outcome
    rw [first, second]
    exact ⟨outcome.same_result, depth, fits⟩

theorem reads_compare (levels : l ≤ m) (s : Source) :
    Compares l s.tokens.tokens.length tree (run (q l) s l) (run (q m) s m) := by
  rcases run_starts (α := α) s with ⟨e, failure, ran⟩ | ⟨c, opens, ran⟩
  · rw [(ran l (q l) (p 0)).1, (ran m (q m) (p 0)).1]
    refine .fails fun k nesting => ?_
    have lexical := (Scanner.start s).tokens_fault e failure
    rw [nesting] at lexical
    exact lexical
  · have zero : Register.zero.Fits l := ⟨Nat.zero_le _, by simp [Register.zero]⟩
    have first := counted_run settles (Nat.lt_succ_self l) s
    obtain ⟨-, -, outcome⟩ := settles levels (Nat.lt_succ_self l)
      ((sound_of_opens opens).limited l) (Nat.zero_add l) zero
    have sum : Register.zero.depth + m = m := Nat.zero_add m
    rw [sum, Cursor.limited_limited] at outcome
    rw [← first.1, (ran l (q l) (p (l + 1))).2, (ran m (q m) (p 0)).1]
    exact outcome.compares opens

/-- What the limit does, from what each parser does. -/
theorem onlyRefusesDeep {limit : Nat}
    (bounded : ∀ a, run (q limit) s limit = .ok a → ¬ (tree a).Exceeds limit) :
    OnlyRefusesDeep (fun limit s => run (q limit) s limit)
      (fun calls limit s => Metered.run (p calls) s limit) tree limit s := by
  have compare {l m : Nat} (levels : l ≤ m) := reads_compare settles levels s
  have settled : ∀ more ≥ s.tokens.tokens.length,
      run (q more) s more = unlimited (fun limit s => run (q limit) s limit) s := by
    intro more enough
    have read := compare enough
    unfold unlimited
    dsimp only
    generalize run (q more) s more = y, run (q s.tokens.tokens.length) s s.tokens.tokens.length = x
      at read
    cases read with
    | same a => rfl
    | fails other => rfl
    | stops nesting few deep first => exact absurd few (Nat.lt_irrefl _)
  -- A limit that is no limit stands for none.
  let more := max limit s.tokens.tokens.length
  have read := compare (Nat.le_max_left limit s.tokens.tokens.length)
  rw [settled _ (Nat.le_max_right _ _)] at read
  have other := compare (Nat.le_refl s.tokens.tokens.length)
  generalize whole : unlimited (fun limit s => run (q limit) s limit) s = y at read
  constructor
  · exact settled
  · intro e failed k nesting
    rw [unlimited] at failed
    rw [failed] at other
    cases other with
    | fails other => exact other k nesting
    | stops nesting few deep first => exact absurd few (Nat.lt_irrefl _)
  · intro a found shallow
    rw [whole] at found
    subst found
    generalize run (q limit) s limit = x at read ⊢
    cases read with
    | same a => rfl
    | stops nesting few deep first => exact absurd (deep a rfl) (not_exceeds.mpr shallow)
  · intro a found deeper
    rw [whole] at found
    subst found
    generalize reading : run (q limit) s limit = x at read
    cases read with
    | same a => exact absurd deeper (bounded a reading)
    | @stops e y nesting few deep first => exact ⟨e, rfl, nesting⟩
  · intro e failed
    rw [whole] at failed
    subst failed
    generalize run (q limit) s limit = x at read
    cases read with
    | fails other => exact .inl rfl
    | @stops e' y nesting few deep first => exact .inr ⟨e', rfl, nesting, first e rfl⟩
  · exact fun calls enough => counted_run settles enough s

end Readers

theorem not_exceeds_of_legal {const : Bool} {levels : Nat} {t : Tree Node}
    (h : t.Legal const levels) : ¬ t.Exceeds levels := not_exceeds.mpr (legal_iff.mp h).2.2

theorem value_bounded {position : Option ConstPosition} {levels limit : Nat} {v : Value}
    (h : run (alone (value position levels)) s limit = .ok v) : ¬ v.tree.Exceeds levels := by
  obtain ⟨c, c', opens, ran⟩ := run_ok h
  have read := value_reads position levels opens.ready (alone_ok ran).1
  exact not_exceeds_of_legal (read.legal v.tree (by simp))

theorem typeRef_bounded {levels limit : Nat} {t : TypeRef}
    (h : run (alone (typeRef levels)) s limit = .ok t) : ¬ t.tree.Exceeds levels := by
  obtain ⟨c, c', opens, ran⟩ := run_ok h
  have read : Read false levels c c' t.spelling [t.tree] :=
    typeRef_reads levels opens.ready (alone_ok ran).1
  exact not_exceeds_of_legal (read.legal t.tree (by simp))

theorem document_bounded {levels limit : Nat} {d : Document}
    (h : run (document (levels + 1)) s limit = .ok d) : ¬ d.tree.Exceeds (levels + 1) := by
  obtain ⟨c, c', opens, ran⟩ := run_ok h
  obtain ⟨-, -, -, read⟩ := document_ok opens.ready ran
  rw [Document.tree, exceeds_flat rfl]
  rintro ⟨t, ht, deep⟩
  exact not_exceeds_of_legal (read.legal t ht) deep

/-- The limit of nesting refuses what is nested too deep and changes nothing else, whatever is read.
A description is a value without a guard of its own, so there has to be one level. -/
theorem nesting_limit_only_refuses (s : Source) (limit : Nat) :
    OnlyRefusesDeep Source.documentWithin Source.countedDocument Document.tree (limit + 1) s ∧
      OnlyRefusesDeep Source.valueWithin Source.countedValue Value.tree (limit + 1) s ∧
      OnlyRefusesDeep Source.constValueWithin Source.countedConstValue Value.tree (limit + 1) s ∧
      OnlyRefusesDeep Source.typeRefWithin Source.countedTypeRef TypeRef.tree (limit + 1) s :=
  ⟨onlyRefusesDeep document_settles fun _ => document_bounded,
    onlyRefusesDeep (fun levels enough => alone_settles (value_settles none levels enough))
      fun _ => value_bounded,
    onlyRefusesDeep
      (fun levels enough => alone_settles (value_settles (some .constValue) levels enough))
      fun _ => value_bounded,
    onlyRefusesDeep (fun levels enough => alone_settles (typeRef_settles levels enough).lessRoom)
      fun _ => typeRef_bounded⟩

end Parser
end GraphQL
