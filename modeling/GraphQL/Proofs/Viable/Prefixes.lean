import GraphQL.Proofs.Layout.Runs
import GraphQL.Proofs.Parser.Runs
import GraphQL.Proofs.Viable.Cuts

/-! Streams that start with the same tokens. A prompt parser that sees nothing but the sorts of tokens
has the same result on both if it needs no more than these tokens for it. -/
namespace GraphQL

theorem isLexical_cutOff : Lexeme.IsLexical cutOff.violation := trivial

/-- Lists that start alike have the same first members. -/
theorem take_eq_take {α : Type} {as bs cs : List α} {n : Nat} (h : as <+: bs) (h' : as <+: cs)
    (few : n ≤ as.length) : bs.take n = cs.take n := by
  obtain ⟨later, rfl⟩ := h
  obtain ⟨later', rfl⟩ := h'
  rw [List.take_append_of_le_length few, List.take_append_of_le_length few]

/-- Streams with the same first tokens are the same if they are cut off behind these. -/
theorem Cursor.cut_alike {c c' : Cursor} {n : Nat} (limit : c.limit = c'.limit)
    (shared : (kinds c.pending).take (n + 1) = (kinds c'.pending).take (n + 1)) :
    (c.cut n).Alike (c'.cut n) where
  pending := by
    simpa [Cursor.pending, Cursor.cut, kinds, List.map_take] using shared
  failure := .some ⟨rfl, rfl⟩
  limit := limit

theorem Consumes.kinds_isPrefix {c d : Cursor} {ts : List Token} (h : Consumes c ts d) :
    kinds (ts ++ [d.current]) <+: kinds c.pending := by
  rw [h.pending]
  exact ⟨kinds d.upcoming, by simp [kinds, Cursor.pending]⟩

/-- Streams with the same tokens up to some place are the same if they are cut off before it. -/
theorem Consumes.cut_alike {c c' d : Cursor} {ts : List Token} {n : Nat} (h : Consumes c ts d)
    (limit : c.limit = c'.limit) (few : n < ts.length) (shared : kinds ts <+: kinds c'.pending) :
    (c.cut n).Alike (c'.cut n) := by
  have first : kinds ts <+: kinds c.pending := by
    refine List.IsPrefix.trans ?_ h.kinds_isPrefix
    simp [kinds]
  exact Cursor.cut_alike limit (take_eq_take first shared (by simpa [kinds]))

/-- Behind the tokens consumed, a stream can be led to the next token of another one. -/
theorem Consumes.veer_alike {c c' d : Cursor} {t : Token} {ts : List Token} {n : Nat}
    (h : Consumes c ts d) (limit : c.limit = c'.limit) (length : ts.length = n + 1)
    (shared : kinds (ts ++ [t]) <+: kinds c'.pending) :
    (c.veer n [t]).Alike (c'.cut ts.length) := by
  have first : c.current :: c.upcoming.take n = ts := by
    have taken := congrArg (List.take (n + 1)) h.pending
    rwa [← length, List.take_left, length] at taken
  refine ⟨?_, .some ⟨rfl, rfl⟩, limit⟩
  have taken : (kinds c'.pending).take (ts.length + 1) = kinds (ts ++ [t]) := by
    rw [← take_eq_take (List.prefix_refl (kinds (ts ++ [t]))) shared (by simp [kinds])]
    exact List.take_of_length_le (by simp [kinds])
  calc kinds (c.veer n [t]).pending = kinds (ts ++ [t]) := by rw [← first]; rfl
    _ = (kinds c'.pending).take (ts.length + 1) := taken.symm
    _ = kinds (c'.cut ts.length).pending := by
      simp [Cursor.pending, Cursor.cut, kinds, List.map_take]

namespace Parser

variable {α : Type} {c c' c₁ d : Cursor} {e : SyntaxError} {a : α} {p : Parser α} {n : Nat}
  {t : Token} {ts : List Token} {rest : List TokenKind}

namespace PromptFrom

/-- A run that succeeds needs the tokens that it consumes. -/
theorem cut_ok (h : PromptFrom c p) (ran : p c = .ok (a, c₁)) (steps : Consumes c ts c₁) :
    p (c.cut ts.length) = .ok (a, c₁.cut 0) := by
  unfold PromptFrom at h
  rw [ran] at h
  cases h with
  | ok steps' agree =>
    obtain rfl := steps.unique steps'
    simpa using agree _ [] le_rfl

/-- An error on a stream that is cut off, and not because it is, is the error of the whole stream. -/
theorem error_of_cut (h : PromptFrom c p) (failed : p (c.cut n) = .error e)
    (grammatical : ¬ Lexeme.IsLexical e.violation) :
    ∃ ts d, p c = .error e ∧ Consumes c ts d ∧ e.Lies ts d ∧ ts.length ≤ n ∧
      p (c.cut ts.length) = .error e := by
  have not_cut : e ≠ cutOff := by
    rintro rfl
    exact grammatical isLexical_cutOff
  unfold PromptFrom at h
  generalize whole : p c = x at h
  cases h with
  | ok steps agree short =>
    rcases Nat.lt_or_ge n _ with few | fits
    · exact absurd (Except.error.inj (failed.symm.trans (short n few))) not_cut
    · rw [← Cursor.veer_nil, agree n [] fits] at failed
      cases failed
  | @error e' ts d steps place agree short late =>
    rcases Nat.lt_or_ge n ts.length with few | fits
    · exact absurd (Except.error.inj (failed.symm.trans (short n few))) not_cut
    · rw [← Cursor.veer_nil, agree n [] fits] at failed
      cases failed
      exact ⟨ts, d, rfl, steps, place, fits, by simpa using agree _ [] le_rfl⟩
  | ends short failure => exact absurd (Except.error.inj (failed.symm.trans (short n))) not_cut

end PromptFrom

namespace Prompt

variable [Comparable α]

/-- A run fails like one on a stream that has the same tokens and is cut off behind them. It fails at
none of the tokens before, if there the other one runs into the cut. -/
theorem fails_alike (prompt : Prompt p) (same : SameRuns p p) (steady' : c'.Steady)
    (alike : d.Alike (c'.cut n)) (failed : p d = .error e)
    (grammatical : ¬ Lexeme.IsLexical e.violation)
    (short : ∀ m < n, ∃ d, d.Alike (c'.cut m) ∧ p d = .error cutOff) :
    ∃ e' us d', p c' = .error e' ∧ e.Alike e' ∧ Consumes c' us d' ∧ e'.Lies us d' ∧
      us.length = n := by
  have agree := same alike
  rw [failed] at agree
  generalize ran : p (c'.cut n) = x at agree
  cases agree with
  | @error _ e' alike_e =>
    have grammatical' : ¬ Lexeme.IsLexical e'.violation := alike_e.violation ▸ grammatical
    obtain ⟨us, d', failed', steps', place', few, cut⟩ := (prompt steady').error_of_cut ran grammatical'
    refine ⟨e', us, d', failed', alike_e, steps', place', few.antisymm ?_⟩
    by_contra fewer
    obtain ⟨d₁, alike_d, into_cut⟩ := short us.length (by omega)
    have agree := same alike_d
    rw [into_cut, cut] at agree
    cases agree with
    | error alike_cut => exact grammatical' (alike_cut.violation ▸ isLexical_cutOff)

/-- Where a run fails behind some tokens, a run on another stream with the same tokens up to there
fails alike behind as many. What comes next has to be the same only if the error is about it: a late
error is the same in front of any token, or a faulty string in front of nothing that can be described is
no longer looked at. -/
theorem same_error (prompt : Prompt p) (same : SameRuns p p) (steady : c.Steady)
    (failed : p c = .error e) (grammatical : ¬ Lexeme.IsLexical e.violation) :
    ∃ ts d, Consumes c ts d ∧ e.Lies ts d ∧
      ∀ ⦃c' : Cursor⦄ ⦃t : Token⦄, c'.Steady → c.limit = c'.limit →
        t.kind = d.current.kind ∨ e.violation.IsLate → kinds (ts ++ [t]) <+: kinds c'.pending →
        ∃ e' us d', p c' = .error e' ∧ Consumes c' us d' ∧ e'.Lies us d' ∧ us.length = ts.length ∧
          (e.Alike e' ∨ (∃ fault, e.violation = .string fault) ∧ ¬ t.kind.IsDescribable ∧
            e'.violation = .description) := by
  have prompt_c := prompt steady
  unfold PromptFrom at prompt_c
  rw [failed] at prompt_c
  cases prompt_c with
  | ends short failure => exact absurd (steady.lexical e failure) grammatical
  | @error _ ts d steps place agree short late =>
    refine ⟨ts, d, steps, place, fun c' t steady' limit next shared => ?_⟩
    have before : kinds ts <+: kinds c'.pending := by
      refine List.IsPrefix.trans ?_ shared
      simp [kinds]
    have into_cut (m : Nat) (few : m < ts.length) :
        ∃ d₁ : Cursor, d₁.Alike (c'.cut m) ∧ p d₁ = .error cutOff :=
      ⟨c.cut m, steps.cut_alike limit few before, short m few⟩
    by_cases same_next : t.kind = d.current.kind
    · have alike : (c.cut ts.length).Alike (c'.cut ts.length) := by
        refine Cursor.cut_alike limit (take_eq_take steps.kinds_isPrefix ?_ (by simp [kinds]))
        simpa [kinds, same_next] using shared
      obtain ⟨e', us, d', failed', alike_e, steps', place', length⟩ := prompt.fails_alike same steady'
        alike (by simpa using agree _ [] le_rfl) grammatical into_cut
      exact ⟨e', us, d', failed', steps', place', length, .inl alike_e⟩
    · have is_late := next.resolve_left same_next
      obtain ⟨n, length⟩ := Nat.exists_eq_add_one_of_ne_zero
        (List.length_pos_iff.mpr (place.ne_nil is_late)).ne'
      have alike := steps.veer_alike limit length shared
      rcases late is_late n t [] length with stays | ⟨fault, other, described⟩
      · obtain ⟨e', us, d', failed', alike_e, steps', place', length'⟩ :=
          prompt.fails_alike same steady' alike stays grammatical into_cut
        exact ⟨e', us, d', failed', steps', place', length', .inl alike_e⟩
      · obtain ⟨e', us, d', failed', alike_e, steps', place', length'⟩ :=
          prompt.fails_alike same steady' alike described id into_cut
        exact ⟨e', us, d', failed', steps', place', length',
          .inr ⟨fault, other, alike_e.violation.symm⟩⟩

/-- A run that succeeds does so on any stream with the same tokens, whatever comes after the one that
it stops at. -/
theorem replays (prompt : Prompt p) (same : SameRuns p p) (steady : c.Steady)
    (steady' : c'.Steady) (limit : c.limit = c'.limit) (ran : p c = .ok (a, c₁))
    (steps : Consumes c ts c₁) (shared : kinds c'.pending = kinds ts ++ c₁.current.kind :: rest) :
    ∃ a' us d, p c' = .ok (a', d) ∧ Consumes c' us d ∧ c₁.limit = d.limit ∧
      kinds d.pending = c₁.current.kind :: rest := by
  have alike : (c.cut ts.length).Alike (c'.cut ts.length) := by
    refine Cursor.cut_alike limit (take_eq_take steps.kinds_isPrefix ⟨rest, ?_⟩ (by simp [kinds]))
    simp [shared, kinds]
  have agree := same alike
  rw [(prompt steady).cut_ok ran steps] at agree
  generalize ran' : p (c'.cut ts.length) = x at agree
  cases agree with
  | @ok _ a' _ x related stops =>
    obtain ⟨us, d, whole, steps', few, rfl⟩ := (prompt steady').of_cut ran'
    refine ⟨a', us, d, whole, steps', stops.limit, ?_⟩
    have ends := stops.length
    have all := congrArg List.length shared
    have length := steps'.length
    have parts : kinds us ++ kinds d.pending = kinds ts ++ c₁.current.kind :: rest := by
      rw [← shared, steps'.pending, kinds, kinds, kinds, List.map_append]
    refine (List.append_inj parts ?_).2
    simp only [Cursor.cut, Cursor.pending, kinds, List.length_take, List.length_map,
      List.length_cons, List.length_append] at ends all ⊢
    omega

end Prompt
end Parser

/-! ### Sources -/

theorem Cursor.Opens.steady {c : Cursor} {s : Source} (opens : c.Opens s) : c.Steady where
  ready := opens.ready
  lexical e he := (Scanner.start s).tokens_fault e (opens.failure ▸ he)

theorem Parser.map_error {α : Type} {x : Except SyntaxError (α × Cursor)} {e : SyntaxError} :
    x.map (·.1) = .error e ↔ x = .error e := by
  cases x <;> simp [Except.map]

/-- A source without tokens has a lexical error in front. -/
theorem Parser.run_cut {α : Type} {s : Source} (none : s.tokens.tokens = []) :
    ∃ e, s.tokens.failure = some e ∧ ∀ (p : Parser α) limit, run p s limit = .error e := by
  cases failure : s.tokens.failure with
  | none =>
    obtain ⟨us, -, ⟨-, cut⟩ | ⟨t, all, -⟩⟩ := (Scanner.start s).tokens_words
    · exact absurd failure cut
    · simp [Source.tokens, all] at none
  | some e =>
    refine ⟨e, rfl, fun p limit => ?_⟩
    have cut : consume (start s limit) = .error e := by simp [consume, start, none, failure]
    rw [run, bind_result, cut]

/-- A run on a source fails where a lexical error cuts the tokens off, or from the first token on. -/
theorem Parser.run_failed {α : Type} {p : Parser α} {s : Source} {limit : Nat} {e : SyntaxError}
    (failed : run p s limit = .error e) :
    s.tokens.failure = some e ∨ ∃ c : Cursor, c.Opens s ∧ p c = .error e := by
  by_cases none : s.tokens.tokens = []
  · obtain ⟨e', failure, runs⟩ := run_cut (α := α) none
    rw [runs] at failed
    cases failed
    exact .inl failure
  · obtain ⟨c, opens, -, runs⟩ := run_opened (α := α) none limit
    exact .inr ⟨c, opens, map_error.mp ((runs p).symm.trans failed)⟩

/-- Where a run on a source fails, a lexical error cuts the tokens off, or the error lies at some place
among them. -/
theorem Parser.run_error {α : Type} {p : Parser α} {s : Source} {limit : Nat} {e : SyntaxError}
    (prompt : Prompt p) (failed : run p s limit = .error e) :
    s.tokens.failure = some e ∨ ¬ Lexeme.IsLexical e.violation ∧
      ∃ c ts d, c.Opens s ∧ Consumes c ts d ∧ e.Lies ts d := by
  rcases run_failed failed with cut | ⟨c, opens, failed_c⟩
  · exact .inl cut
  · have prompt_c := prompt opens.steady
    unfold PromptFrom at prompt_c
    rw [failed_c] at prompt_c
    cases prompt_c with
    | ends short failure => exact .inl (opens.failure ▸ failure)
    | error steps place => exact .inr ⟨place.grammatical, c, _, _, opens, steps, place⟩

end GraphQL
