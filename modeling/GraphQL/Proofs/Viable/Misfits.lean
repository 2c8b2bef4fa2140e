import GraphQL.Proofs.Layout.Sources
import GraphQL.Proofs.Viable.Rows

/-! Errors at tokens that fit no rule. Such an error is at the first token that nothing can go on with:
those before it can be completed to a document, and no document starts with them and this token. -/
namespace GraphQL

open Spelling

theorem TokenKind.ReadBefore.lexes {k : TokenKind} {rest : List Char} (h : k.ReadBefore rest) :
    k.Lexes := by
  have alone : k.ReadBefore [] := h.swap (by simp [Lexeme.StopsLike])
  obtain ⟨c, cs, chars, read⟩ := alone
  exact ⟨c, cs, chars, by simpa using read⟩

/-- What a text is read as can be written. -/
theorem ReadsAs.lexes {text : List Char} {ks : List TokenKind} (h : ReadsAs text ks) :
    ∀ k ∈ ks, k ≠ .endOfInput → k.Lexes := by
  induction h with
  | ending nothing => simp
  | token trivia reads later ih =>
    rw [List.forall_mem_cons]
    exact ⟨fun _ => reads.lexes, ih⟩

/-- Tokens in front of others have some characters, and end where the next one starts or before. -/
theorem Scanner.tokens_apart (s : Scanner) : s.tokens.tokens.Pairwise fun t u =>
    t.start.offset < t.stop.offset ∧ t.stop.offset ≤ u.start.offset := by
  fun_induction Scanner.tokens s with
  | case1 s e s' h => exact .nil
  | case2 s t s' h last => exact List.pairwise_singleton _ _
  | case3 s t s' h more later ih =>
    refine .cons (fun u hu => ?_) ih
    rcases reads_next h with ⟨last, -⟩ | ⟨gap, -, reads, -, start, place, stop⟩
    · exact absurd last more
    · have after := (tokens_ordered s').starts u hu
      have length := reads.byteLength_pos
      simp only [start, stop, place, Place.pass_offset, Text.byteLength_append] at after ⊢
      omega

/-- No two tokens start at the same place. -/
theorem Scanner.starts_increase (s : Scanner) :
    s.tokens.tokens.Pairwise fun t u => t.start.offset < u.start.offset :=
  s.tokens_apart.imp fun ⟨filled, apart⟩ => filled.trans_le apart

theorem Consumes.getElem? {c d : Cursor} {ts : List Token} (h : Consumes c ts d) :
    c.pending[ts.length]? = some d.current := by
  rw [h.pending]
  simp [Cursor.pending]

theorem SyntaxError.Misfit.isUnexpected {e : SyntaxError} {d : Cursor} (h : e.Misfit d) :
    e.violation.IsUnexpected := by
  obtain ⟨expected, violation⟩ := h.violation
  rw [violation]
  trivial

/-- An error is at one token only. -/
theorem SyntaxError.Misfit.unique {s : Source} {c d d' : Cursor} {e : SyntaxError}
    {ts us : List Token} (h : e.Misfit d) (h' : e.Misfit d') (opens : c.Opens s)
    (steps : Consumes c ts d) (steps' : Consumes c us d') : ts = us ∧ d.current = d'.current := by
  refine steps.same_current steps' ?_
  have starts : (c.pending.map (·.start.offset)).Nodup := by
    rw [opens.pending]
    exact List.pairwise_map.mpr ((Scanner.start s).starts_increase.imp ne_of_lt)
  have place : d.current.start = d'.current.start :=
    (Origin.mk.inj (h.origin.symm.trans h'.origin)).2.1
  have inside : ts.length < (c.pending.map (·.start.offset)).length := by
    rw [List.length_map, steps.pending]
    simp [Cursor.pending]
  refine (List.getElem?_inj inside starts).mp ?_
  rw [List.getElem?_map, List.getElem?_map, steps.getElem?, steps'.getElem?, Option.map_some,
    Option.map_some, place]

/-- Parsing a source breaks off with an error behind some whole definitions, in another one that starts
with these tokens. -/
def Source.BreaksOff (s : Source) (e : SyntaxError) (done part : List Token) : Prop :=
  ∃ c c₀ later, c.Opens s ∧ c.limit = nestingLimit ∧ Parser.Row nestingLimit c done c₀ ∧
    c₀.pending = part ++ later ∧ Parser.definition (m := Parser) nestingLimit c₀ = .error e

/-- There is a document that starts with these tokens. -/
def BeginsDocument (ks : List TokenKind) : Prop :=
  ∃ (s : Source) (more : List TokenKind) (d : Document), s.tokens.failure = none ∧
    kinds s.tokens.tokens = ks ++ more ∧ s.parseDocument = .ok d

/-- A source is no document, for a reason that also holds of others: the error is at its token behind
so many others, and says the same. If the tokens up to there are the same, so is the place. -/
def Source.FailsLike (s : Source) (e : SyntaxError) (before : List Token) (t : Token) : Prop :=
  ∃ e' t', s.parseDocument = .error e' ∧ s.tokens.tokens[before.length]? = some t' ∧
    e'.origin = t'.origin s ∧ SameOutcome (.error e : Except SyntaxError Document) (.error e') ∧
    (before ++ [t] <+: s.tokens.tokens → e'.origin = ⟨s, e.origin.start, e.origin.stop⟩)

/-- An error is at a token that fits no rule, the first such one. Before it stand whole definitions and
the first tokens of another one. -/
structure Source.FirstMisfit (s : Source) (e : SyntaxError) (done part : List Token) (t : Token) :
    Prop where
  tokens : done ++ part ++ [t] <+: s.tokens.tokens
  breaksOff : s.BreaksOff e done part
  origin : e.origin = t.origin s
  /-- Unless the limit of nesting is reached, or a dollar sign where variables are refused comes last,
  something can be put behind the tokens before it that makes them a document. -/
  completable : nestingAfter (kinds part) < nestingLimit →
    (∀ us, kinds part = us ++ [.punctuator .dollar] → ¬ ConstAfter us) →
    BeginsDocument (kinds (done ++ part))
  /-- No text with the same tokens up to it is a document. -/
  refused : t.kind ≠ .endOfInput → ∀ s' : Source,
    kinds (done ++ part ++ [t]) <+: kinds s'.tokens.tokens → s'.FailsLike e (done ++ part) t

namespace Parser

variable {levels : Nat} {s : Source} {c c' c₀ c₁ d : Cursor} {e : SyntaxError}
  {ks more : List TokenKind} {done part ts : List Token}

/-- Tokens that make a document out of those in front of them, which a stream starts with. -/
def Finishes (levels : Nat) (c : Cursor) (ts : List Token) (more : List TokenKind) : Prop :=
  ∀ ⦃c' : Cursor⦄, c'.Whole → c.limit = c'.limit →
    kinds c'.pending = kinds ts ++ more ++ [.endOfInput] →
      ∃ x c₁, document (m := Parser) levels c' = .ok (x, c₁)

/-- A row of definitions with one more behind it is a document. -/
theorem Row.finishes (row : Row (levels + 1) c done c₀) (whole : c.Whole)
    (mem : ks ∈ Definitions (levels + 1)) (next : done = [] ∨ ks.head? = some c₀.current.kind)
    (parts : kinds ts ++ more = kinds done ++ ks) : Finishes (levels + 1) c ts more := by
  intro c' whole' limit faces
  obtain ⟨x, spelled, legal⟩ := mem
  rw [parts, List.append_assoc] at faces
  obtain ⟨first, c₁, others, c₂, read, read'⟩ :=
    row.rereads whole whole' limit (legal _ List.mem_cons_self) spelled next faces
  refine ⟨⟨some ⟨c₂.source, .first, c₂.lastEnd⟩, first :: others⟩, c₂, ?_⟩
  simp only [document, lifted_self]
  rw [bind_eq read, bind_eq read']
  rfl

/-- Tokens behind a row of definitions that can be completed to another one can be completed to a
document. If there are none, the last of the row is taken for the other one, unless it is empty. -/
theorem Row.completes (row : Row (levels + 1) c done c₀) (whole : c.Whole)
    (steps : Consumes c₀ part c₁) (h : Completes (Definitions (levels + 1)) (kinds part)) :
    ∃ more, (∀ k ∈ more, k.Lexes) ∧ Finishes (levels + 1) c (done ++ part) more := by
  obtain ⟨more, mem, lexes⟩ := h
  have behind (next : done = [] ∨ (kinds part ++ more).head? = some c₀.current.kind) :
      ∃ more, (∀ k ∈ more, k.Lexes) ∧ Finishes (levels + 1) c (done ++ part) more :=
    ⟨more, lexes, row.finishes whole mem next (by simp [kinds])⟩
  cases part with
  | cons t ts =>
    have first := steps.head? (by simp)
    simp only [List.head?_cons, Option.some.injEq] at first
    exact behind (.inr (by simp [kinds, first]))
  | nil =>
    rcases row.nothing_or_last with ⟨rfl, -⟩ | ⟨before, c₂, x, us, row', read, steps', rfl⟩
    · exact behind (.inl rfl)
    · obtain ⟨vs, steps'', mem', some_token⟩ :=
        definition_passes (row'.consumes.whole whole) read
      obtain rfl := steps'.unique steps''
      have next : (kinds us).head? = some c₂.current.kind := by
        simp [kinds, steps'.head? some_token]
      exact ⟨[], by simp, row'.finishes whole mem' (.inr next) (by simp [kinds])⟩

/-- Where a document fails at a token, this token does not fit into one of its definitions. -/
theorem document_misfit (whole : c.Whole) (failed : document (m := Parser) (levels + 1) c = .error e)
    (unexpected : e.violation.IsUnexpected) :
    ∃ done c₀ part d opened, Row (levels + 1) c done c₀ ∧
      definition (m := Parser) (levels + 1) c₀ = .error e ∧
      Consumes c₀ part d ∧ e.Misfit d ∧ unclosed (kinds part) = some opened ∧
      (Proper (levels + 1) (kinds part) opened →
        Completes (Definitions (levels + 1)) (kinds part)) := by
  obtain ⟨done, c₀, row, whole₀, failed⟩ :=
    document_error (fun _ _ _ => definition_whole) whole failed
  have run : ViableAt (Proper (levels + 1)) (Definitions (levels + 1)) c₀
      (definition (m := Parser) (levels + 1) c₀) := definition_viable.run whole₀
  rw [failed] at run
  obtain ⟨part, d, opened, steps, misfit, leaves, completes⟩ := run unexpected
  exact ⟨done, c₀, part, d, opened, row, failed, steps, misfit, leaves.unclosed, completes⟩

/-- A stream with the same tokens up to the one that does not fit fails alike there. -/
theorem document_same_misfit {s' : Source} (opens : c.Opens s) (opens' : c'.Opens s')
    (limit : c.limit = c'.limit) (failed : document (m := Parser) levels c = .error e)
    (steps : Consumes c ts d)
    (misfit : e.Misfit d) (shared : kinds (ts ++ [d.current]) <+: kinds c'.pending) :
    ∃ e' us d', document (m := Parser) levels c' = .error e' ∧ e.Alike e' ∧ Consumes c' us d' ∧
      e'.Misfit d' ∧
      us.length = ts.length := by
  obtain ⟨us, d₁, steps₁, place₁, same⟩ := document_prompt.same_error (document_same _)
    opens.steady failed fun lexical => lexical.not_isUnexpected misfit.isUnexpected
  obtain ⟨rfl, current⟩ :=
    (place₁.misfit misfit.isUnexpected).unique misfit opens steps₁ steps
  rw [← current] at shared
  obtain ⟨e', vs, d', failed', steps', place', length, alike | ⟨⟨fault, other⟩, -⟩⟩ :=
    same opens'.steady limit (.inl rfl) shared
  · have unexpected' : e'.violation.IsUnexpected := alike.violation ▸ misfit.isUnexpected
    exact ⟨e', vs, d', failed', alike, steps', place'.misfit unexpected', length⟩
  · obtain ⟨expected, violation⟩ := misfit.violation
    rw [other] at violation
    cases violation

end Parser

/-- Tokens of a source in front of another one can be written. -/
theorem Source.lexes_of_append {s : Source} {ts after : List Token} {t : Token}
    (complete : s.tokens.failure = none) (tokens : s.tokens.tokens = ts ++ t :: after) :
    ∀ k ∈ kinds ts, k.Lexes := by
  have lexes := (ReadsAs.of_tokens (Scanner.start s) complete).lexes
  obtain ⟨us, words, ⟨-, cut⟩ | ⟨e, all, -⟩⟩ := (Scanner.start s).tokens_words
  · exact absurd complete cut
  · have before : ts <+: us := by
      have whole : ts ++ t :: after = us ++ [e] := by rw [← tokens, Source.tokens, all]
      refine List.prefix_of_prefix_length_le ⟨t :: after, whole⟩ ⟨[e], rfl⟩ ?_
      have := congrArg List.length whole
      simp only [List.length_append, List.length_cons, List.length_nil] at this
      omega
    intro k hk
    obtain ⟨u, hu, rfl⟩ := List.mem_map.mp hk
    refine lexes u.kind ?_ (words u (before.mem hu)).notEnd
    rw [all]
    exact List.mem_map_of_mem (List.mem_append_left _ (before.mem hu))

/-- A source that can be read to its end has a token at least, its end. -/
theorem Source.tokens_ne_nil {s : Source} (complete : s.tokens.failure = none) :
    s.tokens.tokens ≠ [] := by
  obtain ⟨us, -, ⟨-, cut⟩ | ⟨e, all, -⟩⟩ := (Scanner.start s).tokens_words
  · exact absurd complete cut
  · simp [Source.tokens, all]

/-- Tokens with spaces between them are a text that is read as them. -/
theorem Parser.Finishes.beginsDocument {c : Cursor} {ts : List Token} {more : List TokenKind}
    (h : Finishes nestingLimit c ts more) (limit : c.limit = nestingLimit)
    (lexes : ∀ k ∈ kinds ts, k.Lexes) (lexes' : ∀ k ∈ more, k.Lexes) :
    BeginsDocument (kinds ts) := by
  have all : ∀ k ∈ kinds ts ++ more, k.Lexes := by
    intro k hk
    rcases List.mem_append.mp hk with hk | hk
    · exact lexes k hk
    · exact lexes' k hk
  let s : Source := ⟨spaced (kinds ts ++ more), ""⟩
  obtain ⟨tokens, complete⟩ := (Scanner.start s).tokens_spaced all (splitIgnored_spaced all)
  obtain ⟨c', opens, limit', runs⟩ :=
    Parser.run_opened (α := Document) (s.tokens_ne_nil complete) nestingLimit
  obtain ⟨d, c₁, ran⟩ := h ⟨opens.ready, opens.failure.trans complete⟩
    (limit.trans limit'.symm) (by rw [opens.pending]; exact tokens)
  refine ⟨s, more ++ [.endOfInput], d, complete, ?_, ?_⟩
  · rw [← List.append_assoc]
    exact tokens
  · exact (runs _).trans (by rw [ran]; rfl)

/-- Where parsing a source fails at a token, other sources with the same tokens up to this one fail
like it. -/
theorem Cursor.Opens.failsLike {s s' : Source} {c d : Cursor} {e : SyntaxError} {ts : List Token}
    (opens : c.Opens s) (limit : c.limit = nestingLimit)
    (failed : Parser.document (m := Parser) nestingLimit c = .error e) (steps : Consumes c ts d)
    (misfit : e.Misfit d) (shared : kinds (ts ++ [d.current]) <+: kinds s'.tokens.tokens) :
    s'.FailsLike e ts d.current := by
  have some_token : s'.tokens.tokens ≠ [] := by
    intro none
    simp [none, kinds] at shared
  obtain ⟨c', opens', limit', runs⟩ := Parser.run_opened (α := Document) some_token nestingLimit
  rw [← opens'.pending] at shared
  obtain ⟨e', us, d', failed', alike, steps', misfit', length⟩ :=
    Parser.document_same_misfit opens opens' (limit.trans limit'.symm) failed steps misfit shared
  have place : s'.tokens.tokens[ts.length]? = some d'.current := by
    rw [← length, ← opens'.pending]
    exact steps'.getElem?
  have origin : e'.origin = d'.current.origin s' := by
    rw [misfit'.origin, steps'.source, opens'.source]
  refine ⟨e', d'.current, (runs _).trans (Parser.map_error.mpr failed'), place, origin,
    alike.sameOutcome, fun same => ?_⟩
  obtain ⟨later, same⟩ := same
  have current : d'.current = d.current := by
    rw [← same] at place
    simpa using place.symm
  rw [origin, current, misfit.origin]
  rfl

/-- Errors are at the first token that nothing can go on with. Where the parsing of a text that can be
read to its end fails at a token that does not fit, no document starts with the tokens up to this one.
With those before it one does, if they keep to the limit of nesting and use no variable where none is
allowed. -/
theorem error_at_first_misfit {s : Source} {e : SyntaxError} {expected : Option Expectation}
    {found : TokenKind} (complete : s.tokens.failure = none) (failed : s.parseDocument = .error e)
    (unexpected : e.violation = .unexpected expected found) :
    ∃ done part t, t.kind = found ∧ s.FirstMisfit e done part t := by
  obtain ⟨c, opens, limit, runs⟩ :=
    Parser.run_opened (α := Document) (s.tokens_ne_nil complete) nestingLimit
  have whole : c.Whole := ⟨opens.ready, opens.failure.trans complete⟩
  have failed_c := Parser.map_error.mp ((runs (Parser.document nestingLimit)).symm.trans failed)
  have about_token : e.violation.IsUnexpected := by
    rw [unexpected]
    trivial
  obtain ⟨done, c₀, part, d, opened, row, failed_c₀, steps, misfit, marks, completes⟩ :=
    Parser.document_misfit whole failed_c about_token
  have all := row.consumes.trans steps
  have tokens : s.tokens.tokens = done ++ part ++ d.current :: d.upcoming := by
    rw [← opens.pending, all.pending]
    rfl
  refine ⟨done, part, d.current, ?_, ?_⟩
  · obtain ⟨_, violation⟩ := misfit.violation
    rw [unexpected] at violation
    exact (Violation.unexpected.inj violation).2.symm
  · constructor
    case tokens => exact ⟨d.upcoming, by simp [tokens]⟩
    case breaksOff => exact ⟨c, c₀, d.pending, opens, limit, row, steps.pending, failed_c₀⟩
    case origin => rw [misfit.origin, all.source, opens.source]
    case completable =>
      intro deep begun
      obtain ⟨more, lexes, finishes⟩ := row.completes whole steps (completes ⟨deep, begun⟩)
      exact finishes.beginsDocument limit (s.lexes_of_append complete tokens) lexes
    case refused =>
      intro more s' shared
      exact opens.failsLike limit failed_c all misfit shared

/-- A list that is closed with the wrong mark, inside a selection and arguments. -/
theorem error_at_first_misfit_in_list :
    let s : Source := ⟨"query ($a: Int = 1) \x7b f(x: [$a \x7d", "t"⟩
    let ks : List TokenKind := [.name "query", .punctuator .openParen, .punctuator .dollar, .name "a",
      .punctuator .colon, .name "Int", .punctuator .equals, .int "1", .punctuator .closeParen,
      .punctuator .openBrace, .name "f", .punctuator .openParen, .name "x", .punctuator .colon,
      .punctuator .openBracket, .punctuator .dollar, .name "a"]
    s.tokens.failure = none ∧ ∃ e, s.parseDocument = .error e ∧
      e.violation = .unexpected (some .value) (.punctuator .closeBrace) ∧ BeginsDocument ks ∧
      ∀ s' : Source, ks ++ [.punctuator .closeBrace] <+: kinds s'.tokens.tokens →
        ∃ e', s'.parseDocument = .error e' ∧
          SameOutcome (.error e : Except SyntaxError Document) (.error e') := by
  intro s ks
  have complete : s.tokens.failure = none := by cbv
  obtain ⟨e, failed, unexpected, place⟩ : ∃ e, s.parseDocument = .error e ∧
      e.violation = .unexpected (some .value) (.punctuator .closeBrace) ∧
      e.origin.start.offset = 31 := ⟨_, by cbv, rfl, rfl⟩
  have starts : s.tokens.tokens.map (·.start.offset) =
      [0, 6, 7, 8, 9, 11, 15, 17, 18, 20, 22, 23, 24, 25, 27, 28, 29, 31, 32] := by cbv
  have all : kinds s.tokens.tokens = ks ++ [.punctuator .closeBrace, .endOfInput] := by cbv
  obtain ⟨done, part, t, kind, first⟩ := error_at_first_misfit complete failed unexpected
  obtain ⟨after, tokens⟩ := first.tokens
  have start : t.start.offset = 31 := by
    rw [← place, first.origin]
    rfl
  have length : (done ++ part).length = 17 := by
    have nodup : (s.tokens.tokens.map (·.start.offset)).Nodup := by
      rw [starts]
      decide
    have here : (s.tokens.tokens.map (·.start.offset))[(done ++ part).length]? = some 31 := by
      rw [← tokens]
      simp [start]
    have there : (s.tokens.tokens.map (·.start.offset))[17]? = some 31 := by rw [starts]; rfl
    obtain ⟨inside, -⟩ := List.getElem?_eq_some_iff.mp here
    exact (List.getElem?_inj inside nodup).mp (here.trans there.symm)
  have before : kinds (done ++ part) = ks := by
    rw [← tokens, kinds, List.append_assoc, List.map_append] at all
    exact (List.append_inj all (by simpa [ks] using length)).1
  have parts : kinds done ++ kinds part = ks := by rw [← before, kinds, kinds, kinds, List.map_append]
  refine ⟨complete, e, failed, unexpected, ?_, fun s' shared => ?_⟩
  · rw [← before]
    refine first.completable ?_ fun us last => ?_
    · have shallow : ∀ i ≤ 17, nestingAfter (ks.drop i) < nestingLimit := by decide
      have few : (kinds done).length ≤ 17 := by
        simp only [kinds, List.length_map, List.length_append] at length ⊢
        omega
      have deep := shallow _ few
      rwa [← parts, List.drop_left] at deep
    · have ends : ks.getLast? = some (.punctuator .dollar) := by
        rw [← parts, last, ← List.append_assoc, List.getLast?_concat]
      cases ends
  · obtain ⟨e', t', failed', -, -, same, -⟩ := first.refused (by simp [kind]) s' (by
      rw [kinds, List.map_append, ← kinds, before, List.map_singleton, kind]
      exact shared)
    exact ⟨e', failed', same⟩

end GraphQL
