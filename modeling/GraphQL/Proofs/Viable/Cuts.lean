import GraphQL.Proofs.Viable.Places

/-! Streams that are cut off after some tokens, or go on differently there. A prompt parser decides
everything by the tokens that it consumes and the one after them: on a stream that is cut off later it
has the same result, and on one that is cut off earlier it runs into the cut. What it finds fault with
once it has consumed it, it finds fault with whatever comes after. -/
namespace GraphQL

/-- An error that stands for tokens which have been taken away. -/
def cutOff : SyntaxError := ⟨.loneMinus, ⟨⟨"", ""⟩, .first, .first⟩, []⟩

namespace Cursor

/-- The stream is cut off so many tokens after the current one. -/
def cut (c : Cursor) (n : Nat) : Cursor :=
  { c with upcoming := c.upcoming.take n, failure := some cutOff }

/-- So many tokens after the current one the stream goes on with others, and is cut off after them. -/
def veer (c : Cursor) (n : Nat) (us : List Token) : Cursor :=
  { c with upcoming := c.upcoming.take n ++ us, failure := some cutOff }

variable {c : Cursor} {n : Nat} {us : List Token}

@[simp] theorem veer_nil : c.veer n [] = c.cut n := by simp [veer, cut]

@[simp] theorem current_veer : (c.veer n us).current = c.current := rfl

end Cursor

/-- A place in a stream that is cut off by a lexical error, if at all. -/
structure Cursor.Steady (c : Cursor) : Prop where
  ready : c.Ready
  lexical : ∀ e ∈ c.failure, Lexeme.IsLexical e.violation

theorem Consumes.steady {c c' : Cursor} {ts : List Token} (h : Consumes c ts c') (w : c.Steady) :
    c'.Steady where
  ready := h.ready w.ready
  lexical e he := w.lexical e (h.failure ▸ he)

theorem Consumes.length {c c' : Cursor} {ts : List Token} (h : Consumes c ts c') :
    c.upcoming.length = ts.length + c'.upcoming.length := by
  have := congrArg List.length h.pending
  simp only [Cursor.pending, List.length_append, List.length_cons] at this
  omega

/-- The step over the current token, if there is another one. -/
theorem Consumes.next {c : Cursor} {t : Token} {ts : List Token} (tokens : c.upcoming = t :: ts) :
    Consumes c [c.current] { c with current := t, upcoming := ts, lastEnd := c.current.stop } :=
  ⟨by simp [Cursor.pending, tokens], rfl, rfl, rfl⟩

/-- As many tokens lead to the same token. -/
theorem Consumes.same_current {c d d' : Cursor} {ts us : List Token} (h : Consumes c ts d)
    (h' : Consumes c us d') (length : ts.length = us.length) : ts = us ∧ d.current = d'.current := by
  obtain ⟨same, rest⟩ := List.append_inj (h.pending.symm.trans h'.pending) length
  exact ⟨same, (List.cons.inj rest).1⟩

theorem Consumes.unique {c d : Cursor} {ts us : List Token} (h : Consumes c ts d)
    (h' : Consumes c us d) : ts = us := by
  refine (h.same_current h' ?_).1
  have := h.length
  have := h'.length
  omega

namespace Parser

variable {α β : Type} {c c' : Cursor} {e : SyntaxError}

/-- A run from some place, with its result: those on streams that are cut off or go on differently are
as they are expected to be. -/
inductive PromptAt (c : Cursor) (run : Parser α) : Except SyntaxError (α × Cursor) → Prop
  | ok {a : α} {c' : Cursor} {ts : List Token} (steps : Consumes c ts c')
    (agree : ∀ n us, ts.length ≤ n → run (c.veer n us) = .ok (a, c'.veer (n - ts.length) us))
    (short : ∀ n < ts.length, run (c.cut n) = .error cutOff) : PromptAt c run (.ok (a, c'))
  | error {e : SyntaxError} {ts : List Token} {d : Cursor} (steps : Consumes c ts d)
    (place : e.Lies ts d) (agree : ∀ n us, ts.length ≤ n → run (c.veer n us) = .error e)
    (short : ∀ n < ts.length, run (c.cut n) = .error cutOff)
    (late : e.violation.IsLate → ∀ n t us, ts.length = n + 1 → e.Stays t (run (c.veer n (t :: us)))) :
    PromptAt c run (.error e)
  | ends {e : SyntaxError} (short : ∀ n, run (c.cut n) = .error cutOff) (failure : c.failure = some e) :
    PromptAt c run (.error e)

/-- A run from some place is prompt. -/
abbrev PromptFrom (c : Cursor) (p : Parser α) : Prop := PromptAt c p (p c)

/-- All runs of a parser are prompt. -/
def Prompt (p : Parser α) : Prop := ∀ ⦃c⦄, c.Steady → PromptFrom c p

theorem PromptAt.congr {p run : Parser α} {x : Except SyntaxError (α × Cursor)}
    (h : PromptAt c p x)
    (same : ∀ n us, p (c.veer n us) = run (c.veer n us)) : PromptAt c run x := by
  have cut (n : Nat) : p (c.cut n) = run (c.cut n) := by simpa using same n []
  cases h with
  | ok steps agree short =>
    exact .ok steps (fun n us fits => (same n us).symm.trans (agree n us fits))
      fun n few => (cut n).symm.trans (short n few)
  | error steps place agree short late =>
    refine .error steps place (fun n us fits => (same n us).symm.trans (agree n us fits))
      (fun n few => (cut n).symm.trans (short n few)) fun is_late n t us length => ?_
    rw [← same]
    exact late is_late n t us length
  | ends short failure => exact .ends (fun n => (cut n).symm.trans (short n)) failure

namespace PromptFrom

variable {p run : Parser α} {f : α → Parser β}

/-- A run that goes through another one first, and then on from where that stops. -/
theorem chain {run : Parser β} (steady : c.Steady) (h : PromptFrom c p)
    (fails : ∀ ⦃c₁ e⦄, p c₁ = .error e → run c₁ = .error e)
    (rest : ∀ ⦃a c' ts⦄, p c = .ok (a, c') → Consumes c ts c' → c'.Steady →
      ∃ q : Parser β, PromptFrom c' q ∧ run c = q c' ∧ ∀ n us, ts.length ≤ n →
        p (c.veer n us) = .ok (a, c'.veer (n - ts.length) us) →
        run (c.veer n us) = q (c'.veer (n - ts.length) us)) : PromptFrom c run := by
  unfold PromptFrom at h ⊢
  generalize ran : p c = x at h
  cases h with
  | @error e ts d steps place agree short late =>
    rw [fails ran]
    refine .error steps place (fun n us fits => fails (agree n us fits))
      (fun n few => fails (short n few)) fun is_late n t us length => ?_
    exact (late is_late n t us length).imp (fun same => fails same)
      fun ⟨fault, other, same⟩ => ⟨fault, other, fails same⟩
  | ends short failure =>
    rw [fails ran]
    exact .ends (fun n => fails (short n)) failure
  | @ok a c₁ ts steps agree short =>
    obtain ⟨q, later, here, onward⟩ := rest ran steps (steps.steady steady)
    have whole (n : Nat) (us : List Token) (fits : ts.length ≤ n) :
        run (c.veer n us) = q (c₁.veer (n - ts.length) us) := onward n us fits (agree n us fits)
    have cut (n : Nat) (few : ts.length ≤ n → q (c₁.cut (n - ts.length)) = .error cutOff) :
        run (c.cut n) = .error cutOff := by
      by_cases fits : ts.length ≤ n
      · rw [← Cursor.veer_nil, whole n [] fits, Cursor.veer_nil, few fits]
      · exact fails (short n (by omega))
    unfold PromptFrom at later
    rw [here]
    generalize q c₁ = y at later
    cases later with
    | @ok b c₂ us steps' agree' short' =>
      refine .ok (steps.trans steps') (fun n vs fits => ?_) fun n few => cut n fun _ => short' _ ?_
      · rw [List.length_append] at fits ⊢
        rw [whole n vs (by omega), agree' _ vs (by omega), Nat.sub_sub]
      · rw [List.length_append] at few
        omega
    | @error e us d steps' place agree' short' late =>
      refine .error (steps.trans steps') (place.behind_append ts) (fun n vs fits => ?_)
        (fun n few => cut n fun _ => short' _ ?_) fun is_late n t vs length => ?_
      · rw [List.length_append] at fits
        rw [whole n vs (by omega), agree' _ vs (by omega)]
      · rw [List.length_append] at few
        omega
      · have := List.length_pos_iff.mpr (place.ne_nil is_late)
        rw [List.length_append] at length
        rw [whole n (t :: vs) (by omega)]
        exact late is_late (n - ts.length) t vs (by omega)
    | ends short' failure => exact .ends (fun n => cut n fun _ => short' _) (steps.failure ▸ failure)

theorem pure (a : α) : PromptFrom c (pure a : Parser α) :=
  .ok (.refl c) (fun n us _ => rfl) (by simp)

theorem bind (steady : c.Steady) (h : PromptFrom c p)
    (rest : ∀ ⦃a c'⦄, p c = .ok (a, c') → c'.Steady → PromptFrom c' (f a)) :
    PromptFrom c (p >>= f) := by
  refine h.chain steady (fun c₁ e failed => ?_) fun a c' ts ran _ steady' =>
    ⟨f a, rest ran steady', bind_eq ran, fun n us _ ran' => bind_eq ran'⟩
  rw [bind_result, failed]

/-- What a run on a cut stream returns, the run on the whole stream returns. -/
theorem of_cut {n : Nat} {a : α} {d : Cursor} (h : PromptFrom c p) (ran : p (c.cut n) = .ok (a, d)) :
    ∃ ts d', p c = .ok (a, d') ∧ Consumes c ts d' ∧ ts.length ≤ n ∧ d = d'.cut (n - ts.length) := by
  unfold PromptFrom at h
  generalize whole : p c = x at h
  cases h with
  | @error e ts d' steps place agree short late =>
    by_cases fits : ts.length ≤ n
    · rw [← Cursor.veer_nil, agree n [] fits] at ran
      cases ran
    · rw [short n (by omega)] at ran
      cases ran
  | ends short failure =>
    rw [short n] at ran
    cases ran
  | @ok b d' ts steps agree short =>
    by_cases fits : ts.length ≤ n
    · rw [← Cursor.veer_nil, agree n [] fits] at ran
      cases ran
      exact ⟨ts, d', rfl, steps, fits, Cursor.veer_nil⟩
    · rw [short n (by omega)] at ran
      cases ran

/-- What comes after a look round. -/
theorem look (looks : Looks p) (rest : ∀ a, p c = .ok (a, c) → PromptFrom c (f a)) :
    PromptFrom c (p >>= f) := by
  obtain ⟨g, seen⟩ := looks
  unfold PromptFrom
  rw [bind_eq (seen c)]
  exact PromptAt.congr (rest _ (seen c)) fun n us => (bind_eq (seen (c.veer n us))).symm

theorem ite {b : Prop} [Decidable b] {q : Parser α} (yes : b → PromptFrom c p)
    (no : ¬ b → PromptFrom c q) : PromptFrom c (if b then p else q) := by
  split
  · next h => exact yes h
  · next h => exact no h

/-- Errors about the token that is current, found without consuming any. -/
theorem ahead {v : Violation} (other : ¬ Lexeme.IsLexical v) (here : v.reach = 0)
    (misfit : v.IsUnexpected → ∃ expected, v = .unexpected expected c.current.kind)
    (fails : ∀ n us, p (c.veer n us) = .error ⟨v, c.current.origin c.source, []⟩)
    (failed : p c = .error ⟨v, c.current.origin c.source, []⟩) : PromptFrom c p := by
  unfold PromptFrom
  rw [failed]
  have none : Consumes c [] c := .refl c
  exact .error none
    ⟨other, fun unexpected => ⟨rfl, misfit unexpected⟩, fun _ => rfl, fun reach => absurd here reach.ne',
      by simp⟩ (fun n us _ => fails n us) (by simp) fun late => absurd here late.1.ne'

theorem unexpected (expected : Option Expectation) :
    PromptFrom c (unexpected expected : Parser α) :=
  ahead (v := .unexpected expected c.current.kind) id rfl (fun _ => ⟨expected, rfl⟩) (fun _ _ => rfl) rfl

/-- Only at the end of the input can the current token not be consumed. -/
theorem consume (steady : c.Steady) (more : c.current.kind ≠ .endOfInput) :
    PromptFrom c consume := by
  cases tokens : c.upcoming with
  | cons t ts =>
    have ran : Parser.consume c = .ok (c.current,
        { c with current := t, upcoming := ts, lastEnd := c.current.stop }) := by
      simp [Parser.consume, tokens]
    unfold PromptFrom
    rw [ran]
    refine .ok (Consumes.next tokens) (fun n us some_token => ?_) fun n none => ?_
    · obtain ⟨n, rfl⟩ : ∃ m, n = m + 1 := Nat.exists_eq_add_of_le' some_token
      simp [Parser.consume, Cursor.veer, tokens]
    · obtain rfl : n = 0 := by simpa using none
      simp [Parser.consume, Cursor.cut]
  | nil =>
    cases cut : c.failure with
    | none => exact absurd (steady.ready.kind_of_last tokens cut) more
    | some e =>
      have ran : Parser.consume c = .error e := by simp [Parser.consume, tokens, cut]
      unfold PromptFrom
      rw [ran]
      exact .ends (fun n => by simp [Parser.consume, Cursor.cut, tokens]) cut

theorem consumed {f : Token → Parser β} (steady : c.Steady) (more : c.current.kind ≠ .endOfInput)
    (rest : ∀ ⦃c'⦄, Consumes c [c.current] c' → c'.Steady → PromptFrom c' (f c.current)) :
    PromptFrom c (Parser.consume >>= f) := by
  refine .bind steady (.consume steady more) fun t c' ran steady' => ?_
  obtain ⟨rfl, steps⟩ := consume_reads steady.ready more ran
  exact rest steps steady'

/-- A look ahead fails where the stream is cut off right after the current token. Anywhere else it
finds the token that is there. -/
theorem lookahead {f : Token → Parser β} (steady : c.Steady) (more : c.current.kind ≠ .endOfInput)
    (rest : ∀ ⦃c'⦄, Consumes c [c.current] c' →
      (∀ n us, 0 < n → (lookahead >>= f) (c.veer n us) = f c'.current (c.veer n us)) →
      PromptAt c (lookahead >>= f) (f c'.current c)) :
    PromptFrom c (lookahead >>= f) := by
  cases tokens : c.upcoming with
  | cons t ts =>
    have seen : Parser.lookahead c = .ok (t, c) := by simp [Parser.lookahead, tokens]
    unfold PromptFrom
    rw [bind_eq seen]
    refine rest (.next tokens) fun n us some_token => ?_
    obtain ⟨n, rfl⟩ : ∃ m, n = m + 1 := Nat.exists_eq_add_of_le' some_token
    exact bind_eq (by simp [Parser.lookahead, Cursor.veer, tokens])
  | nil =>
    cases cut : c.failure with
    | none => exact absurd (steady.ready.kind_of_last tokens cut) more
    | some e =>
      have seen : Parser.lookahead c = .error e := by simp [Parser.lookahead, tokens, cut]
      unfold PromptFrom
      rw [bind_result, seen]
      refine .ends (fun n => ?_) cut
      rw [bind_result]
      simp [Parser.lookahead, Cursor.cut, tokens]

theorem lookahead_cut {f : Token → Parser β} :
    (Parser.lookahead >>= f) (c.cut 0) = .error cutOff := rfl

/-- Errors that a look ahead is enough for. -/
theorem refused_ahead {f : Token → Parser β} {e : SyntaxError} (steps : Consumes c [c.current] c')
    (later : ∀ n us, 0 < n →
      (Parser.lookahead >>= f) (c.veer n us) = f c'.current (c.veer n us))
    (place : e.Lies [c.current] c') (early : ¬ e.violation.IsLate)
    (fails : ∀ n us, f c'.current (c.veer n us) = .error e) :
    PromptAt c (Parser.lookahead >>= f) (.error e) := by
  refine .error steps place (fun n us some_token => (later n us some_token).trans (fails n us))
    (fun n none => ?_) fun late => absurd late early
  obtain rfl : n = 0 := by simpa using none
  exact lookahead_cut

/-- Parsers that consume a token anyway need no look ahead to run into the cut. Where they fail late
about this token, the look ahead may find another one behind it. -/
theorem behind_lookahead {f : Token → Parser β} {t : Token} (h : PromptFrom c (f t))
    (later : ∀ n us, 0 < n → (Parser.lookahead >>= f) (c.veer n us) = f t (c.veer n us))
    (short : f t (c.cut 0) = .error cutOff)
    (late : ∀ e, f t (c.cut 1) = .error e → e.violation.IsLate →
      ∀ u us, e.Stays u (f u (c.veer 0 (u :: us)))) :
    PromptAt c (Parser.lookahead >>= f) (f t c) := by
  have cut (n : Nat) (h : f t (c.cut n) = .error cutOff) :
      (Parser.lookahead >>= f) (c.cut n) = .error cutOff := by
    cases n with
    | zero => exact lookahead_cut
    | succ n =>
      rw [← Cursor.veer_nil, later _ _ n.succ_pos, Cursor.veer_nil, h]
  have some_token (ts : List Token) {x : Except SyntaxError (β × Cursor)}
      (agree : ts.length ≤ 0 → f t (c.cut 0) = x) (ne : x ≠ .error cutOff) : 0 < ts.length := by
    by_contra none
    rw [short] at agree
    exact ne (agree (by omega)).symm
  unfold PromptFrom at h
  generalize f t c = x at h
  cases h with
  | @ok a c' ts steps agree short' =>
    have := some_token ts (fun none => Cursor.veer_nil ▸ agree 0 [] none) (by simp)
    exact .ok steps (fun n us fits => (later n us (by omega)).trans (agree n us fits))
      fun n few => cut n (short' n few)
  | @error e ts d steps place agree short' late' =>
    have := some_token ts (fun none => Cursor.veer_nil ▸ agree 0 [] none) (by
      rintro ⟨⟩
      exact place.grammatical trivial)
    refine .error steps place (fun n us fits => (later n us (by omega)).trans (agree n us fits))
      (fun n few => cut n (short' n few)) fun is_late n u us length => ?_
    cases n with
    | zero => exact late e (by rw [← Cursor.veer_nil, agree 1 [] length.le]) is_late u us
    | succ n =>
      rw [later _ _ n.succ_pos]
      exact late' is_late _ u us length
  | ends short' failure => exact .ends (fun n => cut n (short' n)) failure

end PromptFrom

/-- A parser that does not mind which token comes after those that it consumes. -/
def Blind (c : Cursor) (p : Parser α) : Prop :=
  ∀ ⦃a c'⦄, p c = .ok (a, c') → ∃ ts, Consumes c ts c' ∧ ts ≠ [] ∧ ∀ n t us, ts.length = n + 1 →
    ∃ d, p (c.veer n (t :: us)) = .ok (a, d) ∧ d.source = c.source ∧ d.lastEnd = c'.lastEnd

/-- A parser that consumes the current token and does not mind which one comes after it. -/
def TakesOne (c : Cursor) (p : Parser α) : Prop :=
  ∀ ⦃a c'⦄, p c = .ok (a, c') → Consumes c [c.current] c' ∧ ∀ t us,
    ∃ d, p (c.veer 0 (t :: us)) = .ok (a, d) ∧ d.source = c.source ∧ d.lastEnd = c.current.stop

theorem TakesOne.consume (steady : c.Steady) (more : c.current.kind ≠ .endOfInput) :
    TakesOne c consume := by
  intro a c' ran
  obtain ⟨rfl, steps⟩ := consume_reads steady.ready more ran
  exact ⟨steps, fun t us => ⟨_, rfl, rfl, rfl⟩⟩

theorem TakesOne.blind {p : Parser α} (h : TakesOne c p) : Blind c p := by
  intro a c' ran
  obtain ⟨steps, veers⟩ := h ran
  refine ⟨_, steps, by simp, fun n t us single => ?_⟩
  obtain rfl : n = 0 := by simpa using single.symm
  obtain ⟨d, ran', source, lastEnd⟩ := veers t us
  exact ⟨d, ran', source, by simp [lastEnd, steps.lastEnd]⟩

/-- The last of two parsers decides. -/
theorem Blind.bind {p : Parser α} {f : α → Parser β} (steady : c.Steady) (h : PromptFrom c p)
    (rest : ∀ ⦃a c'⦄, p c = .ok (a, c') → c'.Steady → Blind c' (f a)) : Blind c (p >>= f) := by
  intro b c₂ ran
  obtain ⟨a, c₁, first, second⟩ := bind_ok.mp ran
  unfold PromptFrom at h
  rw [first] at h
  cases h with
  | @ok _ _ ts steps agree short =>
    obtain ⟨us, steps', ne, blind⟩ := rest first (steps.steady steady) second
    refine ⟨ts ++ us, steps.trans steps', by simp [ne], fun n t vs length => ?_⟩
    have := List.length_pos_iff.mpr ne
    rw [List.length_append] at length
    obtain ⟨d, ran', source, lastEnd⟩ := blind (n - ts.length) t vs (by omega)
    exact ⟨d, bind_eq (agree n _ (by omega)) |>.trans ran', source.trans steps.source, lastEnd⟩

/-- A check of what has been consumed, which does not mind what comes after it. Where it fails, the
error covers the last ones of the tokens consumed. -/
theorem PromptFrom.checked {p : Parser α} {f : α → Parser β} (steady : c.Steady)
    (h : PromptFrom c p) (blind : Blind c p)
    (checks : ∀ ⦃a c' ts⦄, p c = .ok (a, c') → Consumes c ts c' → c'.Steady →
      PromptFrom c' (f a) ∨ ∃ v o us vs, v.IsLate ∧ ts = us ++ vs ∧ vs.length = v.reach ∧
        Origin.covering c.source vs = some o ∧ ∀ d, d.source = c.source → d.lastEnd = c'.lastEnd →
          f a d = .error ⟨v, o, []⟩) :
    PromptFrom c (p >>= f) := by
  cases ran : p c with
  | error e => exact h.bind steady fun a c' ran' => by rw [ran] at ran'; cases ran'
  | ok r =>
    obtain ⟨a, c'⟩ := r
    obtain ⟨ts, steps, ne, blind⟩ := blind ran
    rcases checks ran steps (steps.steady steady) with fine | ⟨v, o, us, vs, late, split, length, covers, fails⟩
    · refine h.bind steady fun a' c'' ran' _ => ?_
      rw [ran] at ran'
      cases ran'
      exact fine
    · have failed : f a c' = .error ⟨v, o, []⟩ := fails c' steps.source rfl
      have place : SyntaxError.Lies ⟨v, o, []⟩ ts c' :=
        ⟨late.other.1, fun unexpected => absurd unexpected late.other.2,
          fun none => absurd none late.1.ne',
          fun _ => ⟨us, vs, split, length, by rw [steps.source, covers]⟩, by simp⟩
      unfold PromptFrom at h ⊢
      rw [ran] at h
      rw [bind_eq ran, failed]
      cases h with
      | ok steps' agree short =>
        obtain rfl := steps'.unique steps
        refine .error steps place (fun n vs fits => ?_) (fun n few => ?_) fun _ n t vs last => ?_
        · exact (bind_eq (agree n vs fits)).trans (fails _ steps.source rfl)
        · rw [bind_result, short n few]
        · obtain ⟨d, ran', source, lastEnd⟩ := blind n t vs last
          exact .inl ((bind_eq ran').trans (fails d source lastEnd))

/-- A check of the current token. -/
theorem PromptFrom.checked_one {p : Parser α} {f : α → Parser β} (steady : c.Steady)
    (h : PromptFrom c p) (one : TakesOne c p)
    (checks : ∀ ⦃a c'⦄, p c = .ok (a, c') → (c'.Steady → PromptFrom c' (f a)) ∨
      ∃ v, v.IsLate ∧ v.reach = 1 ∧ ∀ d, d.source = c.source → d.lastEnd = c.current.stop →
        f a d = .error ⟨v, c.current.origin c.source, []⟩) :
    PromptFrom c (p >>= f) := by
  refine h.checked steady one.blind fun a c' ts ran steps steady' => ?_
  obtain ⟨steps', -⟩ := one ran
  obtain rfl := steps.unique steps'
  rcases checks ran with fine | ⟨v, late, reach, fails⟩
  · exact .inl (fine steady')
  · refine .inr ⟨v, _, [], _, late, rfl, reach.symm, rfl, fun d source lastEnd => ?_⟩
    exact fails d source (by simp [lastEnd, steps'.lastEnd])

/-- An error with what it tells of an open mark. -/
def tell (m : Punctuator) (o : Origin) {r : Type} : Except SyntaxError r → Except SyntaxError r
  | .error e => .error (e.within m o)
  | .ok x => .ok x

theorem inside_tells (m : Punctuator) (o : Origin) (p : Parser α) :
    inside m o p = fun c => tell m o (p c) := by
  funext c
  unfold inside
  cases p c <;> rfl

/-- Nothing but what is told of the current token is new, if that is consumed first. -/
theorem PromptFrom.told {p : Parser α} (h : PromptFrom c p) (steady : c.Steady)
    (first : p (c.cut 0) = .error cutOff) (m : Punctuator) :
    PromptFrom c fun c₁ => tell m (c.current.origin c.source) (p c₁) := by
  have same (c₁ : Cursor) {x : Except SyntaxError (α × Cursor)} (ran : p c₁ = x) :
      (fun c₁ => tell m (c.current.origin c.source) (p c₁)) c₁ =
        tell m (c.current.origin c.source) x := congrArg _ ran
  unfold PromptFrom at h ⊢
  generalize ran : p c = x at h
  rw [same c ran]
  cases h with
  | ok steps agree short =>
    exact .ok steps (fun n us fits => same _ (agree n us fits)) fun n few => same _ (short n few)
  | @error e ts d steps place agree short late =>
    have ne : ts ≠ [] := by
      rintro rfl
      rw [← Cursor.veer_nil, agree 0 [] le_rfl] at first
      cases first
      exact place.grammatical trivial
    have place' := place.within (steps.head? ne) m
    rw [steps.source] at place'
    refine .error steps place' (fun n us fits => same _ (agree n us fits))
      (fun n few => same _ (short n few)) fun is_late n t us length => ?_
    rw [SyntaxError.violation_within] at is_late
    have keeps := SyntaxError.within_eq_self (m := m) (o := c.current.origin c.source) is_late.other.2
    rw [keeps]
    rcases late is_late n t us length with stays | ⟨fault, other, described⟩
    · exact .inl ((same _ stays).trans (by rw [tell, keeps]))
    · exact .inr ⟨fault, other, same _ described⟩
  | @ends e short failure =>
    rw [tell, SyntaxError.within_eq_self (steady.lexical e failure).not_isUnexpected]
    exact .ends (fun n => same _ (short n)) failure

namespace Prompt

variable {p q : Parser α} {f : α → Parser β}

theorem pure (a : α) : Prompt (pure a : Parser α) := fun _ _ => .pure a

theorem bind (h : Prompt p) (rest : ∀ a, Prompt (f a)) : Prompt (p >>= f) :=
  fun _ steady => (h steady).bind steady fun a _ _ steady' => rest a steady'

theorem map {f : α → β} (h : Prompt p) : Prompt (f <$> p) := by
  rw [map_eq_pure_bind]
  exact h.bind fun a => .pure (f a)

theorem look (looks : Looks p) (rest : ∀ a, Prompt (f a)) : Prompt (p >>= f) :=
  fun _ steady => .look looks fun a _ => rest a steady

theorem ite {b : Prop} [Decidable b] (yes : Prompt p) (no : Prompt q) :
    Prompt (if b then p else q) := fun _ steady => .ite (fun _ => yes steady) fun _ => no steady

theorem unexpected (expected : Option Expectation) :
    Prompt (Parser.unexpected expected : Parser α) := fun _ _ => .unexpected expected

theorem tooDeep : Prompt (tooDeep : Parser α) := fun c _ =>
  .ahead (v := .nesting c.limit) id rfl (absurd · id) (fun _ _ => rfl) rfl

theorem spanned {start : Position} {f : Origin → α} :
    Prompt (do return f (← Parser.spanFrom start)) := look (.spanFrom start) fun o => .pure (f o)

/-- A mark or a word that is looked for is not the end of the input. -/
theorem atMark_consume {m : Punctuator} {f : Token → Parser α} (yes : ∀ t, Prompt (f t))
    (no : Prompt q) : Prompt (do if ← atMark m then consume >>= f else q) := by
  intro c steady
  refine .look (.atMark m) fun b at_mark => .ite (fun yes_mark => ?_) fun _ => no steady
  have kind : c.current.kind = .punctuator m := by
    simpa [yes_mark] using (atMark_ok.mp at_mark).1
  exact (PromptFrom.consume steady (by simp [kind])).bind steady fun t _ _ steady' => yes t steady'

theorem atKeyword_consume {word : String} {f : Token → Parser α} (yes : ∀ t, Prompt (f t))
    (no : Prompt q) : Prompt (do if ← atKeyword word then consume >>= f else q) := by
  intro c steady
  refine .look (.atKeyword word) fun b at_word => .ite (fun yes_word => ?_) fun _ => no steady
  have kind : c.current.kind = .name word := by
    simpa [yes_word] using (atKeyword_ok.mp at_word).1
  exact (PromptFrom.consume steady (by simp [kind])).bind steady fun t _ _ steady' => yes t steady'

theorem accept (m : Punctuator) : Prompt (accept m) :=
  atMark_consume (fun _ => .pure true) (.pure false)

theorem acceptKeyword (word : String) : Prompt (acceptKeyword word) :=
  atKeyword_consume (fun _ => .pure true) (.pure false)

theorem expect (m : Punctuator) : Prompt (expect m) := by
  have read : Prompt (do if ← atMark m then Parser.consume >>= Pure.pure else
      Parser.unexpected (some (.mark m))) := atMark_consume (fun t => .pure t) (.unexpected _)
  simpa only [Parser.expect, bind_pure] using read

theorem expectKeyword (word : String) : Prompt (expectKeyword word) := by
  have read : Prompt (do if ← atKeyword word then Parser.consume >>= Pure.pure else
      Parser.unexpected (some (.keyword word))) := atKeyword_consume (fun t => .pure t) (.unexpected _)
  simpa only [Parser.expectKeyword, bind_pure] using read

theorem expectEnd : Prompt expectEnd := look .peek fun _ => ite (.pure ()) (.unexpected _)

/-- The induction is on the tokens left. A round that consumes something does so on a stream that
goes on differently later, too, so that both loops go on there. -/
theorem collect {step : Parser (Option α)} (h : Prompt step) : Prompt (collect step) := by
  intro c steady
  induction size : c.upcoming.length using Nat.strong_induction_on generalizing c with
  | _ size ih =>
    subst size
    refine (h steady).chain steady (fun c₁ e failed => by rw [Parser.collect, failed])
      fun o c' ts ran steps steady' => ?_
    cases o with
    | none =>
      refine ⟨Pure.pure [], .pure [], by rw [Parser.collect, ran]; rfl, fun n us _ ran' => ?_⟩
      rw [Parser.collect, ran']
      rfl
    | some a =>
      have length := steps.length
      by_cases onward : ts = []
      · subst onward
        refine ⟨Pure.pure [a], .pure [a], ?_, fun n us _ ran' => ?_⟩
        · rw [Parser.collect, ran]
          simp only
          rw [if_neg (by simp [length])]
          rfl
        · rw [Parser.collect, ran']
          simp only
          rw [if_neg (by simp [Cursor.veer, length])]
          rfl
      · have some_token := List.length_pos_iff.mpr onward
        have later := ih _ (by omega) steady' rfl
        refine ⟨do return a :: (← Parser.collect step), later.bind steady' fun _ _ _ _ => .pure _, ?_,
          fun n us fits ran' => ?_⟩
        · rw [Parser.collect, ran, bind_result]
          simp only
          rw [if_pos (by omega)]
          cases Parser.collect step c' <;> rfl
        · have shorter : (c'.veer (n - ts.length) us).upcoming.length <
              (c.veer n us).upcoming.length := by
            simp only [Cursor.veer, List.length_append, List.length_take]
            omega
          rw [Parser.collect, ran', bind_result]
          simp only
          rw [if_pos shorter]
          cases Parser.collect step (c'.veer (n - ts.length) us) <;> rfl

/-- What stands inside an opening mark. Errors at the end of the input tell of the mark, which is the
first token consumed. -/
theorem bracketed (h : Prompt p) (m : Punctuator) : Prompt (do
    let t ← Parser.expect m
    let opened ← originOf t
    inside m opened p) := by
  intro c steady
  by_cases mark : c.current.kind = .punctuator m
  · have opens (c₁ : Cursor) (current : c₁.current = c.current) :
        Parser.expect m c₁ = Parser.consume c₁ := by
      have at_mark : atMark m c₁ = .ok (true, c₁) := by simp [atMark, current, mark]
      rw [Parser.expect, bind_eq at_mark, if_pos rfl]
    have same (c₁ : Cursor) (current : c₁.current = c.current) (source : c₁.source = c.source)
        (keeps : ∀ e ∈ c₁.failure, e.within m (c.current.origin c.source) = e) :
        tell m (c.current.origin c.source) ((Parser.expect m >>= fun _ => p) c₁) =
          (do inside m (← originOf (← Parser.expect m)) p : Parser α) c₁ := by
      rw [bind_result, bind_result, opens c₁ current]
      unfold Parser.consume
      cases c₁.upcoming with
      | cons t ts =>
        simp only [originOf_bind, inside_tells, current]
        rw [← source]
      | nil =>
        cases cut : c₁.failure with
        | some e => simp only [tell, keeps e cut]
        | none =>
          simp only [originOf_bind, inside_tells, current]
          rw [← source]
    have first : (Parser.expect m >>= fun _ => p) (c.cut 0) = .error cutOff := by
      rw [bind_result, opens (c.cut 0) rfl]
      rfl
    have read := PromptFrom.told (((expect m).bind fun _ => h) steady) steady first m
    have lexical : ∀ e ∈ c.failure, e.within m (c.current.origin c.source) = e :=
      fun e failure => SyntaxError.within_eq_self (steady.lexical e failure).not_isUnexpected
    unfold PromptFrom at read ⊢
    rw [← same c rfl rfl lexical]
    refine PromptAt.congr read fun n us => same (c.veer n us) rfl rfl ?_
    rintro e ⟨⟩
    rfl
  · have refuses (c₁ : Cursor) (current : c₁.current = c.current) :
        (Parser.unexpected (some (.mark m)) : Parser α) c₁ =
          (do inside m (← originOf (← Parser.expect m)) p : Parser α) c₁ := by
      have no_mark : atMark m c₁ = .ok (false, c₁) := by simp [atMark, current, mark]
      rw [bind_result, Parser.expect, bind_eq no_mark]
      rfl
    have read : PromptFrom c (Parser.unexpected (some (.mark m)) : Parser α) := .unexpected _
    unfold PromptFrom at read ⊢
    rw [← refuses c rfl]
    exact PromptAt.congr read fun n us => refuses (c.veer n us) rfl

section Lists

variable {item : Parser α} (items : Prompt item)
include items

theorem itemsUntil (close : Punctuator) : Prompt (itemsUntil close item) :=
  collect <| (accept close).bind fun _ => .ite (.pure none) (items.bind fun a => .pure (some a))

theorem any (opening close : Punctuator) : Prompt (any opening close item) :=
  (items.itemsUntil close).bracketed opening

theorem many (opening close : Punctuator) : Prompt (many opening close item) :=
  (items.bind fun a => (items.itemsUntil close).bind fun as => .pure (a :: as)).bracketed opening

theorem optionalMany (opening close : Punctuator) : Prompt (optionalMany opening close item) :=
  .look (.atMark opening) fun _ => .ite (items.many opening close) (.pure [])

theorem markedItems (m : Punctuator) : Prompt (markedItems m item) :=
  collect <| (accept m).bind fun _ => .ite (items.bind fun a => .pure (some a)) (.pure none)

theorem separated (m : Punctuator) : Prompt (separated m item) :=
  (accept m).bind fun _ => items.bind fun a => (items.markedItems m).bind fun as => .pure (a :: as)

theorem whileAt (m : Punctuator) : Prompt (whileAt m item) :=
  collect <| .look (.atMark m) fun _ => .ite (items.bind fun a => .pure (some a)) (.pure none)

end Lists

end Prompt
end Parser
end GraphQL
