import GraphQL.Proofs.Scanner.Forks
import GraphQL.Proofs.Viable.Misfits

/-! Texts that start alike, up to a space, and go on differently behind it. An error that ends in front
of the space does not depend on what comes behind it, but for descriptions and for checks of a token that
are only made when the next one has been scanned. -/
namespace GraphQL

/-- The first token that starts at some position or behind it. -/
def Source.tokenFrom? (s : Source) (p : Position) : Option Token :=
  s.tokens.tokens.find? fun t => p.offset ≤ t.start.offset

theorem Source.tokens_filled {s : Source} {ts later : List Token} {t : Token}
    (tokens : s.tokens.tokens = ts ++ t :: later) : ∀ u ∈ ts, u.start.offset < u.stop.offset := by
  have apart := (Scanner.start s).tokens_apart
  have all : (Scanner.start s).tokens.tokens = ts ++ t :: later := tokens
  rw [all, List.pairwise_append] at apart
  exact fun u hu => (apart.2.2 u hu t List.mem_cons_self).1

/-- Behind the last one of some tokens comes the next one. -/
theorem Source.tokenFrom?_stop {s : Source} {ts later : List Token} {last : Token}
    (tokens : s.tokens.tokens = ts ++ later) (tail : ts.getLast? = some last)
    (filled : ∀ t ∈ ts, t.start.offset < t.stop.offset) : s.tokenFrom? last.stop = later.head? := by
  have apart := (Scanner.start s).tokens_apart
  have all : (Scanner.start s).tokens.tokens = ts ++ later := tokens
  rw [all, List.pairwise_append] at apart
  obtain ⟨inside, -, behind⟩ := apart
  obtain ⟨before, rfl⟩ := List.getLast?_eq_some_iff.mp tail
  have none : (before ++ [last]).find? (fun t => decide (last.stop.offset ≤ t.start.offset)) = none := by
    rw [List.find?_eq_none]
    intro t ht
    have own := filled t ht
    rw [decide_eq_true_eq]
    rcases List.mem_append.mp ht with ht | ht
    · have := (List.pairwise_append.mp inside).2.2 t ht last (by simp)
      have := filled last (by simp)
      omega
    · rw [List.mem_singleton.mp ht] at own ⊢
      omega
  rw [tokenFrom?, tokens, List.find?_append, none, Option.none_or]
  cases later with
  | nil => rfl
  | cons u us => exact List.find?_cons_of_pos (by simpa using (behind last (by simp) u (by simp)).2)

section

variable {s s' : Source} {e : SyntaxError} {b : Nat}

/-- A lexical error that both texts have is found in both. -/
theorem Scanner.Forks.keeps_lexical (forks : Forks b (.start s) (.start s'))
    (cut : s.tokens.failure = some e) (within : e.origin.stop.offset ≤ b)
    (failed : s.parseDocument = .error e) : s'.parseDocument = .error (e.movedTo s') := by
  have stream : s'.tokens = ⟨s.tokens.tokens, some (e.movedTo s')⟩ := forks.failure cut within
  have lexical : Lexeme.IsLexical e.violation := (Scanner.start s).tokens_fault e cut
  by_cases none : s.tokens.tokens = []
  · obtain ⟨e', failure, runs⟩ := Parser.run_cut (α := Document) (s := s') (by rw [stream]; exact none)
    rw [stream] at failure
    rw [Option.some.inj failure]
    exact runs _ _
  have some_token : s'.tokens.tokens ≠ [] := by rwa [stream]
  obtain ⟨c, opens, limit, runs⟩ := Parser.run_opened (α := Document) none nestingLimit
  obtain ⟨c', opens', limit', runs'⟩ := Parser.run_opened (α := Document) some_token nestingLimit
  have failed_c := Parser.map_error.mp ((runs (Parser.document nestingLimit)).symm.trans failed)
  have alike : c.Alike c' := by
    refine ⟨by rw [opens.pending, opens'.pending, stream], ?_, limit.trans limit'.symm⟩
    rw [opens.failure, opens'.failure, stream, cut]
    exact .some ⟨rfl, rfl⟩
  have agree := Parser.document_same nestingLimit alike
  have document_prompt : Parser.Prompt (Parser.document nestingLimit) := Parser.document_prompt
  have prompt := document_prompt opens'.steady
  unfold Parser.PromptFrom at prompt
  refine (runs' _).trans (Parser.map_error.mpr ?_)
  rw [failed_c] at agree
  generalize Parser.document (m := Parser) nestingLimit c' = x at agree prompt
  cases agree with
  | error alike_e =>
    -- a grammatical error would not be like the one of the other text
    cases prompt with
    | error steps place => exact absurd (alike_e.violation ▸ lexical) place.grammatical
    | ends short failure =>
      rw [opens'.failure, stream] at failure
      rw [Option.some.inj failure]

theorem Origin.covering_stop {ts : List Token} {o : Origin} {last : Token}
    (h : Origin.covering s ts = some o) (tail : ts.getLast? = some last) : last.stop = o.stop := by
  unfold Origin.covering at h
  split at h
  · next found =>
    cases h
    rw [tail] at found
    rw [Option.some.inj found]
  · cases h

theorem Origin.covering_moved {ts : List Token} {o : Origin} (h : Origin.covering s ts = some o)
    (other : Source) : Origin.covering other ts = some ⟨other, o.start, o.stop⟩ := by
  unfold Origin.covering at h ⊢
  split at h
  · next first last =>
    cases h
    rfl
  · cases h

/-- Tokens up to one that ends in front of the space are the same in both texts. -/
theorem Scanner.Forks.shares_ahead (forks : Forks b (.start s) (.start s')) {ts later : List Token}
    {t : Token} (tokens : s.tokens.tokens = ts ++ t :: later) (ends : t.stop.offset ≤ b) :
    ∃ later', s'.tokens.tokens = ts ++ t :: later' := by
  have shared : ts ++ [t] <+: s'.tokens.tokens := by
    refine forks.tokens ⟨later, ?_⟩ fun last hlast => ?_
    · rw [List.append_assoc]
      exact tokens.symm
    · rw [List.getLast?_concat, Option.mem_some_iff] at hlast
      exact hlast ▸ ends
  obtain ⟨later', same⟩ := shared
  exact ⟨later', by rw [← same]; simp⟩

/-- Behind them comes another one if there is one. -/
theorem Scanner.Forks.shares_behind (forks : Forks b (.start s) (.start s')) {ts later : List Token}
    {t last : Token} (tokens : s.tokens.tokens = ts ++ t :: later) (tail : ts.getLast? = some last)
    (ends : last.stop.offset ≤ b) (followed : (s'.tokenFrom? last.stop).isSome) :
    ∃ t' later', s'.tokens.tokens = ts ++ t' :: later' ∧ s'.tokenFrom? last.stop = some t' := by
  have shared : ts <+: s'.tokens.tokens := by
    refine forks.tokens ⟨t :: later, tokens.symm⟩ fun u hu => ?_
    rw [tail, Option.mem_some_iff] at hu
    exact hu ▸ ends
  obtain ⟨later', same⟩ := shared
  have next := Source.tokenFrom?_stop same.symm tail (Source.tokens_filled tokens)
  rw [next] at followed
  obtain ⟨t', head⟩ := Option.isSome_iff_exists.mp followed
  obtain ⟨later', rfl⟩ := List.head?_eq_some_iff.mp head
  exact ⟨t', later', same.symm, next⟩

/-- Tokens in front of an error are the same in both texts, and the one that it is about or the one
behind it comes next. -/
theorem Scanner.Forks.shares (forks : Forks b (.start s) (.start s')) {ts : List Token}
    {d : Cursor} (tokens : s.tokens.tokens = ts ++ d.pending) (place : e.Lies ts d)
    (within : e.origin.stop.offset ≤ b) (other : e.violation ≠ .description)
    (followed : e.violation.IsLate → (s'.tokenFrom? e.origin.stop).isSome) :
    ∃ t later, s'.tokens.tokens = ts ++ t :: later ∧
      (e.violation.reach = 0 ∧ t = d.current ∨
        e.violation.IsLate ∧ s'.tokenFrom? e.origin.stop = some t) := by
  rcases Nat.eq_zero_or_pos e.violation.reach with none | reach
  · obtain ⟨later, same⟩ := forks.shares_ahead tokens (by rwa [place.ahead none] at within)
    exact ⟨d.current, later, same, .inl ⟨none, rfl⟩⟩
  · have late : e.violation.IsLate := ⟨reach, other⟩
    obtain ⟨us, vs, rfl, length, covering⟩ := place.behind reach
    have ne : vs ≠ [] := by
      rintro rfl
      exact reach.ne length
    obtain ⟨last, tail⟩ : ∃ last, vs.getLast? = some last := ⟨_, List.getLast?_eq_some_getLast ne⟩
    have stop : last.stop = e.origin.stop := Origin.covering_stop covering tail
    rw [← stop] at within followed ⊢
    obtain ⟨t, later, same, next⟩ := forks.shares_behind tokens
      (by rw [List.getLast?_append_of_ne_nil _ ne, tail]) within (followed late)
    exact ⟨t, later, same, .inr ⟨late, next⟩⟩

/-- Errors behind the same tokens are at the same place. -/
theorem SyntaxError.Lies.moved {e' : SyntaxError} {ts : List Token} {d d' : Cursor}
    (place : e.Lies ts d) (place' : e'.Lies ts d') (same : e.violation.reach = e'.violation.reach)
    (next : e.violation.reach = 0 → d.current = d'.current) :
    e'.origin = ⟨d'.source, e.origin.start, e.origin.stop⟩ := by
  rcases Nat.eq_zero_or_pos e.violation.reach with none | reach
  · rw [place.ahead none, place'.ahead (same ▸ none), next none]
    rfl
  · obtain ⟨us, vs, rfl, length, covering⟩ := place.behind reach
    obtain ⟨us', vs', parts, length', covering'⟩ := place'.behind (same ▸ reach)
    obtain ⟨-, rfl⟩ := List.append_inj' parts (by rw [length, length', same])
    exact Option.some.inj (covering'.symm.trans (Origin.covering_moved covering d'.source))

/-- A grammatical error is found from the first token on. -/
theorem Source.opens_of_grammatical (failed : s.parseDocument = .error e)
    (grammatical : ¬ Lexeme.IsLexical e.violation) :
    ∃ c : Cursor, c.Opens s ∧ c.limit = nestingLimit ∧
      Parser.document (m := Parser) nestingLimit c = .error e := by
  have some_token : s.tokens.tokens ≠ [] := by
    intro none
    obtain ⟨e', failure, runs⟩ := Parser.run_cut (α := Document) none
    have same : e' = e := Except.error.inj ((runs _ _).symm.trans failed)
    exact grammatical (same ▸ (Scanner.start s).tokens_fault e' failure)
  obtain ⟨c, opens, limit, runs⟩ := Parser.run_opened (α := Document) some_token nestingLimit
  exact ⟨c, opens, limit, Parser.map_error.mp ((runs _).symm.trans failed)⟩

/-- A grammatical error in front of the fork is found in both texts. -/
theorem Scanner.Forks.keeps_grammatical (forks : Forks b (.start s) (.start s'))
    (failed : s.parseDocument = .error e) (grammatical : ¬ Lexeme.IsLexical e.violation)
    (other : e.violation ≠ .description) (within : e.origin.stop.offset ≤ b)
    (followed : e.violation.IsLate → (s'.tokenFrom? e.origin.stop).isSome) :
    ∃ e', s'.parseDocument = .error e' ∧ e'.origin = ⟨s', e.origin.start, e.origin.stop⟩ ∧
      (e.Alike e' ∨ (∃ fault, e.violation = .string fault) ∧ e'.violation = .description ∧
        ∃ t, s'.tokenFrom? e.origin.stop = some t ∧ ¬ t.kind.IsDescribable) := by
  obtain ⟨c, opens, limit, failed_c⟩ := Source.opens_of_grammatical failed grammatical
  obtain ⟨ts, d, steps, place, replay⟩ := Parser.document_prompt.same_error
    (Parser.document_same _) opens.steady failed_c grammatical
  have tokens : s.tokens.tokens = ts ++ d.pending := by rw [← opens.pending, steps.pending]
  obtain ⟨t, later, tokens', next⟩ := forks.shares tokens place within other followed
  have some_token' : s'.tokens.tokens ≠ [] := by simp [tokens']
  obtain ⟨c', opens', limit', runs'⟩ := Parser.run_opened (α := Document) some_token' nestingLimit
  have about : t.kind = d.current.kind ∨ e.violation.IsLate := by
    rcases next with ⟨-, rfl⟩ | ⟨late, -⟩
    · exact .inl rfl
    · exact .inr late
  obtain ⟨e', us, d', failed', steps', place', length, outcome⟩ :=
    replay (t := t) opens'.steady (limit.trans limit'.symm) about ⟨kinds later, by
      rw [opens'.pending, tokens']
      simp [kinds]⟩
  -- both runs have consumed as many tokens of one row, so these are the same
  have pending' : us ++ d'.pending = ts ++ t :: later := by
    rw [← steps'.pending, opens'.pending, tokens']
  obtain ⟨rfl, rest⟩ := List.append_inj pending' length
  have current : d'.current = t := (List.cons.inj rest).1
  -- a faulty string and a description out of place are both about the last token
  have reach : e.violation.reach = e'.violation.reach := by
    rcases outcome with alike | ⟨⟨fault, string⟩, -, description⟩
    · rw [alike.violation]
    · rw [string, description]
      rfl
  have origin := place.moved place' reach fun none => by
    rcases next with ⟨-, rfl⟩ | ⟨late, -⟩
    · exact current.symm
    · exact absurd none late.1.ne'
  rw [steps'.source, opens'.source] at origin
  refine ⟨e', (runs' _).trans (Parser.map_error.mpr failed'), origin, ?_⟩
  rcases outcome with alike | ⟨⟨fault, string⟩, lone, description⟩
  · exact .inl alike
  · rcases next with ⟨none, -⟩ | ⟨-, found⟩
    · simp [string, Violation.reach] at none
    · exact .inr ⟨⟨fault, string⟩, description, t, found, lone⟩

end

/-- The first error in a text is not changed by what comes behind a space after it. Where a description
can be, a faulty string in front of nothing that can be described is reported as a description out of
place. Tokens that are wrong on their own are only looked at once the next one has been found. -/
theorem first_error_kept {s s' : Source} {u v w : String} {e : SyntaxError}
    (text : s.content = u ++ " " ++ v) (text' : s'.content = u ++ " " ++ w)
    (failed : s.parseDocument = .error e) (other : e.violation ≠ .description)
    (within : e.origin.stop.offset ≤ Text.byteLength u.toList)
    (followed : e.violation.IsLate → (s'.tokenFrom? e.origin.stop).isSome) :
    ∃ e', s'.parseDocument = .error e' ∧ e'.origin = ⟨s', e.origin.start, e.origin.stop⟩ ∧
      (SameOutcome (.error e : Except SyntaxError Document) (.error e') ∨
        (∃ fault, e.violation = .string fault) ∧ e'.violation = .description ∧
          ∃ t, s'.tokenFrom? e.origin.stop = some t ∧ ¬ t.kind.IsDescribable) := by
  have forks := Source.forks text text'
  rcases Parser.run_error Parser.document_prompt failed with cut | ⟨grammatical, -⟩
  · have moved : e.Alike (e.movedTo s') := ⟨rfl, rfl⟩
    exact ⟨e.movedTo s', forks.keeps_lexical cut within failed, rfl, .inl moved.sameOutcome⟩
  · obtain ⟨e', failed', origin, alike | described⟩ :=
      forks.keeps_grammatical failed grammatical other within followed
    · exact ⟨e', failed', origin, .inl alike.sameOutcome⟩
    · exact ⟨e', failed', origin, .inr described⟩

/-- A number that is too large stays the first error, although a faulty string comes after it. -/
theorem first_error_kept_number :
    let s : Source := ⟨"\x7b f(a: 99999999999 ) \x7d", "t"⟩
    let s' : Source := ⟨"\x7b f(a: 99999999999 b: \"\\q\"", "t"⟩
    ∃ e e', s.parseDocument = .error e ∧ e.violation = .intRange "99999999999" ∧
      (s'.tokenFrom? e.origin.stop).isSome ∧ s'.parseDocument = .error e' ∧
      e'.origin = ⟨s', e.origin.start, e.origin.stop⟩ ∧ e'.violation = .intRange "99999999999" := by
  intro s s'
  obtain ⟨e, failed, violation, stop⟩ : ∃ e, s.parseDocument = .error e ∧
      e.violation = .intRange "99999999999" ∧ e.origin.stop = ⟨0, 18, 18, 18⟩ :=
    ⟨_, by cbv, rfl, rfl⟩
  have next : (s'.tokenFrom? e.origin.stop).isSome := by
    rw [stop]
    cbv
  have text : s.content = "\x7b f(a: 99999999999" ++ " " ++ ") \x7d" := by decide
  have text' : s'.content = "\x7b f(a: 99999999999" ++ " " ++ "b: \"\\q\"" := by decide
  obtain ⟨e', failed', origin, same | ⟨⟨fault, string⟩, -⟩⟩ :=
    first_error_kept text text' failed (by simp [violation]) (by rw [stop]; decide) fun _ => next
  · cases same with
    | error same_violation =>
      exact ⟨e, e', failed, violation, next, failed', origin, same_violation ▸ violation⟩
  · simp [violation] at string

/-- A faulty string is a faulty description in front of a definition, and a description out of place in
front of anything else. -/
theorem description_decides_fault : ¬ ∀ (s s' : Source) (u v w : String) (e : SyntaxError),
    s.content = u ++ " " ++ v → s'.content = u ++ " " ++ w → s.parseDocument = .error e →
    e.violation ≠ .description → e.origin.stop.offset ≤ Text.byteLength u.toList →
    ∃ e', s'.parseDocument = .error e' ∧ e'.origin = ⟨s', e.origin.start, e.origin.stop⟩ ∧
      SameOutcome (.error e : Except SyntaxError Document) (.error e') := by
  intro kept
  let s : Source := ⟨"\"\\q\" scalar A", "t"⟩
  let s' : Source := ⟨"\"\\q\" a", "t"⟩
  obtain ⟨e, failed, fault, stop⟩ : ∃ e, s.parseDocument = .error e ∧
      e.violation = .string (.escape "\\q") ∧ e.origin.stop = ⟨0, 4, 4, 4⟩ := ⟨_, by cbv, rfl, rfl⟩
  obtain ⟨e₁, failed₁, description⟩ : ∃ e, s'.parseDocument = .error e ∧
      e.violation = .description := ⟨_, by cbv, rfl⟩
  obtain ⟨e', failed', -, same⟩ := kept s s' "\"\\q\"" "scalar A" "a" e (by decide) (by decide) failed
    (by simp [fault]) (by rw [stop]; decide)
  rw [failed₁] at failed'
  cases failed'
  cases same with
  | error violation =>
    rw [fault, description] at violation
    cases violation

/-- Where nothing that is a token comes after it, a number that is too large is not looked at. -/
example : let s : Source := ⟨"\x7b f(a: 99999999999 ~) \x7d", "t"⟩
    s.parseDocument = .error ⟨.character '~', ⟨s, ⟨0, 19, 19, 19⟩, ⟨0, 20, 20, 20⟩⟩, []⟩ := by
  cbv

end GraphQL
