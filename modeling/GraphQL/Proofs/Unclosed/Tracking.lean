import GraphQL.Proofs.Unclosed.Contents
import GraphQL.Proofs.Viable.Rows

/-! Parsers that keep track of the marks that are open: they close what they open, and where they come to
the end of the input, their errors tell of the marks that they have not closed, but for those around the
elements of list types. -/
namespace GraphQL

/-- What errors tell of marks that are open. -/
def toldOf (s : Source) (opened : List OpenMark) : List (Punctuator × Origin) :=
  (opened.filter (·.content ≠ .type)).map fun o => (o.mark, o.token.origin s)

theorem toldOf_append (s : Source) (inner outer : List OpenMark) :
    toldOf s (inner ++ outer) = toldOf s inner ++ toldOf s outer := by
  simp [toldOf]

/-- Errors at the end of the input. -/
def Violation.IsEnd (v : Violation) : Prop := ∃ expected, v = .unexpected expected .endOfInput

theorem Violation.isEnd_iff {v : Violation} : v.IsEnd ↔ v.label = "UnexpectedEof" := by
  constructor
  · rintro ⟨expected, rfl⟩
    rfl
  · intro same
    unfold Violation.label at same
    split at same
    all_goals first | exact ⟨_, rfl⟩ | exact absurd same (by decide)

theorem Violation.IsEnd.isUnexpected {v : Violation} (h : v.IsEnd) : v.IsUnexpected := by
  obtain ⟨expected, rfl⟩ := h
  trivial

/-- A place in a stream that is cut off by a lexical error, if at all, which tells of no marks. -/
structure Cursor.Silent (c : Cursor) : Prop extends c.Steady where
  silent : ∀ e ∈ c.failure, e.unclosed = []

theorem Consumes.silent {c c' : Cursor} {ts : List Token} (h : Consumes c ts c') (w : c.Silent) :
    c'.Silent where
  toSteady := h.steady w.toSteady
  silent e he := w.silent e (h.failure ▸ he)

/-- An error that comes up where a text has got so far. If it is at the end of the input, it tells of the
marks that are opened from there on and not closed. Otherwise it tells of none. -/
structure SyntaxError.Tells (e : SyntaxError) (topic : Topic) (c : Cursor) (r : Progress) : Prop where
  atEnd : e.violation.IsEnd → ∃ ts d before inner, Consumes c ts d ∧
    d.current.kind = .endOfInput ∧ r.after topic ts = some ⟨before, inner ++ r.opened⟩ ∧
    e.unclosed = toldOf c.source inner
  elsewhere : ¬ e.violation.IsEnd → e.unclosed = []

namespace SyntaxError.Tells

variable {e : SyntaxError} {topic : Topic} {c c₁ : Cursor} {r r₁ : Progress} {ts : List Token}

/-- Before the place there may be tokens that close all that they open. -/
theorem behind (h : e.Tells topic c₁ r₁) (steps : Consumes c ts c₁)
    (passed : r.after topic ts = some r₁) (same : r₁.opened = r.opened) : e.Tells topic c r where
  atEnd ends := by
    obtain ⟨us, d, before, inner, steps', last, passed', told⟩ := h.atEnd ends
    refine ⟨ts ++ us, d, before, inner, steps.trans steps', last, ?_, steps.source ▸ told⟩
    rw [Progress.after_append passed, passed', same]
  elsewhere := h.elsewhere

/-- An error about the current token. -/
theorem here {expected : Option Expectation} {o : Origin} :
    SyntaxError.Tells ⟨.unexpected expected c.current.kind, o, []⟩ topic c r where
  atEnd := by
    rintro ⟨_, same⟩
    exact ⟨[], c, r.before, [], .refl c, (Violation.unexpected.inj same).2, rfl, rfl⟩
  elsewhere _ := rfl

/-- An error that is not at the end of the input. -/
theorem other (nothing : e.unclosed = []) (elsewhere : ¬ e.violation.IsEnd) : e.Tells topic c r where
  atEnd ends := absurd ends elsewhere
  elsewhere _ := nothing

/-- The lexical error that cuts a stream off. -/
theorem cut (silent : c.Silent) (cut : c.failure = some e) : e.Tells topic c r :=
  .other (silent.silent e cut) fun ends =>
    (silent.lexical e cut).not_isUnexpected ends.isUnexpected

variable {o : OpenMark}

/-- Behind the mark of a list type, which errors do not tell of. -/
theorem insideType (h : e.Tells topic c₁ r₁) (steps : Consumes c [o.token] c₁)
    (passed : r.pass topic o.token = some r₁) (opened : r₁.opened = o :: r.opened)
    (type : o.content = .type) : e.Tells topic c r where
  atEnd ends := by
    obtain ⟨us, d, before, inner, steps', last, passed', told⟩ := h.atEnd ends
    refine ⟨[o.token] ++ us, d, before, inner ++ [o], steps.trans steps', last, ?_, ?_⟩
    · rw [Progress.after_append (Progress.after_one.trans passed), passed', opened, List.append_cons]
    · rw [told, toldOf_append, steps.source]
      simp [toldOf, type]
  elsewhere := h.elsewhere

/-- Behind another mark, which they do tell of. -/
theorem insideMark (h : e.Tells topic c₁ r₁) (steps : Consumes c [o.token] c₁)
    (passed : r.pass topic o.token = some r₁) (opened : r₁.opened = o :: r.opened)
    (other : o.content ≠ .type) : (e.within o.mark (o.token.origin c.source)).Tells topic c r where
  atEnd ends := by
    rw [SyntaxError.violation_within] at ends
    obtain ⟨us, d, before, inner, steps', last, passed', told⟩ := h.atEnd ends
    refine ⟨[o.token] ++ us, d, before, inner ++ [o], steps.trans steps', last, ?_, ?_⟩
    · rw [Progress.after_append (Progress.after_one.trans passed), passed', opened, List.append_cons]
    · obtain ⟨expected, violation⟩ := ends
      rw [toldOf_append, SyntaxError.within, violation]
      simp [told, toldOf, other, steps.source]
  elsewhere elsewhere := by
    rw [SyntaxError.violation_within] at elsewhere
    have keeps : e.within o.mark (o.token.origin c.source) = e := by
      unfold SyntaxError.within
      split
      · next expected violation => exact absurd ⟨_, violation⟩ elsewhere
      · rfl
    rw [keeps]
    exact h.elsewhere elsewhere

end SyntaxError.Tells

/-- The same marks are open as before, and the tokens in front meet a condition. -/
def Progress.Keeps (r : Progress) (post : List TokenKind → Prop) (r' : Progress) : Prop :=
  r'.opened = r.opened ∧ post r'.before

namespace Progress.Keeps

variable {r r₁ r₂ : Progress} {mid post : List TokenKind → Prop}

theorem trans (h : r.Keeps mid r₁) (h' : r₁.Keeps post r₂) : r.Keeps post r₂ :=
  ⟨h'.1.trans h.1, h'.2⟩

/-- What stands between the same marks is in the same setting. -/
theorem setting {setting : Setting} (h : r.Keeps mid r₁) (here : r.setting setting.topic = setting) :
    r₁.setting setting.topic = setting := by
  rw [Progress.setting, h.1]
  exact here

end Progress.Keeps

/-- A token of some sort comes last, behind tokens that meet a condition. -/
def Behind (k : TokenKind) (pre : List TokenKind → Prop) (before : List TokenKind) : Prop :=
  ∃ earlier, before = k :: earlier ∧ pre earlier

/-- A name comes last. -/
def Named (pre : List TokenKind → Prop) (before : List TokenKind) : Prop :=
  ∃ text, Behind (.name text) pre before

/-- The last token does not start a directive. -/
def Unmarked (before : List TokenKind) : Prop := before.head? ≠ some (.punctuator .atSign)

theorem Behind.unmarked {k : TokenKind} {pre : List TokenKind → Prop} {before : List TokenKind}
    (h : Behind k pre before) (other : k ≠ .punctuator .atSign) : Unmarked before := by
  obtain ⟨earlier, rfl, -⟩ := h
  simpa [Unmarked] using other

theorem Named.unmarked {pre : List TokenKind → Prop} {before : List TokenKind}
    (h : Named pre before) : Unmarked before := by
  obtain ⟨text, behind⟩ := h
  exact behind.unmarked (by simp)

/-- Names that stand behind no mark of a directive are not those of directives. -/
theorem Named.not_endsDirective {before : List TokenKind} (h : Named Unmarked before) :
    endsDirective before = false := by
  obtain ⟨text, earlier, rfl, unmarked⟩ := h
  unfold endsDirective
  split
  · next same =>
    cases same
    exact absurd rfl unmarked
  · rfl

theorem Named.endsDirective {pre : List TokenKind → Prop} {before : List TokenKind}
    (h : Named (Behind (.punctuator .atSign) pre) before) : endsDirective before = true := by
  obtain ⟨text, _, rfl, earlier, rfl, -⟩ := h
  rfl

namespace Parser

variable {α β : Type} {topic : Topic} {c c' : Cursor} {r r₁ : Progress} {post : Progress → Prop}

/-- The result of a run that starts where a text has got so far: it gets on with the tokens that the run
consumes, or the error tells of the marks that the run has not closed. -/
inductive TracksAt (topic : Topic) (c : Cursor) (r : Progress) (post : Progress → Prop) :
    Except SyntaxError (α × Cursor) → Prop
  | ok {a : α} {c' : Cursor} {ts : List Token} {r' : Progress} (steps : Consumes c ts c')
    (passed : r.after topic ts = some r') (holds : post r') : TracksAt topic c r post (.ok (a, c'))
  | error {e : SyntaxError} (tells : e.Tells topic c r) : TracksAt topic c r post (.error e)

/-- A run from some place keeps track. -/
abbrev TracksFrom (topic : Topic) (c : Cursor) (r : Progress) (post : Progress → Prop)
    (p : Parser α) : Prop := TracksAt topic c r post (p c)

/-- Wherever the setting is this one and the tokens in front meet a condition, a parser keeps track. It
closes all that it opens, and the tokens that are then in front meet another condition. -/
def Tracks (setting : Setting) (pre : List TokenKind → Prop) (p : Parser α)
    (post : List TokenKind → Prop) : Prop :=
  ∀ ⦃c r⦄, c.Silent → r.setting setting.topic = setting → pre r.before →
    TracksFrom setting.topic c r (r.Keeps post) p

/-- Whenever a parser returns something, it has consumed some token. -/
def Advances (p : Parser α) : Prop :=
  ∀ ⦃c a c'⦄, c.Ready → p c = .ok (a, c') → c'.upcoming.length < c.upcoming.length

theorem Reads.advances {const : Bool} {levels : Nat} {p : Parser α} {spelling : α → Spelling}
    {tree : α → Tree Node} (reads : Reads const levels p spelling fun a => [tree a]) : Advances p :=
  fun _ _ _ ready ran => (reads ready ran).progress

/-- A run may go on from where some tokens have closed all that they open. -/
theorem TracksAt.behind {x : Except SyntaxError (α × Cursor)} {ts : List Token}
    (h : TracksAt topic c' r₁ post x) (steps : Consumes c ts c')
    (passed : r.after topic ts = some r₁) (same : r₁.opened = r.opened) : TracksAt topic c r post x := by
  cases h with
  | ok steps' passed' holds =>
    exact .ok (steps.trans steps') ((Progress.after_append passed).trans passed') holds
  | error tells => exact .error (tells.behind steps passed same)

theorem TracksAt.mono {x : Except SyntaxError (α × Cursor)} {post' : Progress → Prop}
    (h : TracksAt topic c r post x) (weaker : ∀ r', post r' → post' r') : TracksAt topic c r post' x := by
  cases h with
  | ok steps passed holds => exact .ok steps passed (weaker _ holds)
  | error tells => exact .error tells

/-- What has been found is put together. -/
theorem TracksAt.returns {p : Parser α} {f : α → β} {c₁ : Cursor} (h : TracksAt topic c r post (p c₁)) :
    TracksAt topic c r post ((do return f (← p) : Parser β) c₁) := by
  rw [bind_result]
  generalize p c₁ = x at h
  cases h with
  | ok steps passed holds => exact .ok steps passed holds
  | error tells => exact .error tells

/-- One run after another. The first one may have started further on, if what it comes to is known from
here. -/
theorem TracksAt.bind {p : Parser α} {f : α → Parser β} {c₁ : Cursor} {mid : List TokenKind → Prop}
    (silent : c.Silent) (h : TracksAt topic c r (r.Keeps mid) (p c₁))
    (rest : ∀ ⦃a c' r'⦄, p c₁ = .ok (a, c') → c'.Silent → r.Keeps mid r' →
      TracksAt topic c' r' post (f a c')) : TracksAt topic c r post ((p >>= f) c₁) := by
  rw [bind_result]
  generalize ran : p c₁ = x at h
  cases h with
  | error tells => exact .error tells
  | @ok a c' ts r' steps passed holds =>
    exact (rest ran (steps.silent silent) holds).behind steps passed holds.1

section Inside

variable {o : OpenMark} (steps : Consumes c [o.token] c') (passed : r.pass topic o.token = some r₁)
  (opened : r₁.opened = o :: r.opened)
include steps passed opened

theorem TracksAt.insideType {x : Except SyntaxError (α × Cursor)} (h : TracksAt topic c' r₁ post x)
    (type : o.content = .type) : TracksAt topic c r post x := by
  cases h with
  | ok steps' passed' holds =>
    exact .ok (steps.trans steps')
      ((Progress.after_append (Progress.after_one.trans passed)).trans passed') holds
  | error tells => exact .error (tells.insideType steps passed opened type)

theorem TracksAt.insideMark {p : Parser α} (h : TracksAt topic c' r₁ post (p c'))
    (other : o.content ≠ .type) :
    TracksAt topic c r post (inside o.mark (o.token.origin c.source) p c') := by
  unfold inside
  generalize p c' = x at h
  cases h with
  | ok steps' passed' holds =>
    exact .ok (steps.trans steps')
      ((Progress.after_append (Progress.after_one.trans passed)).trans passed') holds
  | error tells => exact .error (tells.insideMark steps passed opened other)

end Inside

namespace TracksFrom

variable {p : Parser α} {f : α → Parser β} {mid : List TokenKind → Prop}

theorem pure {a : α} (holds : post r) : TracksFrom topic c r post (pure a : Parser α) :=
  .ok (.refl c) rfl holds

theorem look (looks : Looks p) (rest : ∀ a, p c = .ok (a, c) → TracksFrom topic c r post (f a)) :
    TracksFrom topic c r post (p >>= f) := by
  obtain ⟨g, seen⟩ := looks
  unfold TracksFrom
  rw [bind_eq (seen c)]
  exact rest _ (seen c)

theorem ite {b : Prop} [Decidable b] {q : Parser α} (yes : b → TracksFrom topic c r post p)
    (no : ¬ b → TracksFrom topic c r post q) : TracksFrom topic c r post (if b then p else q) := by
  split
  · next h => exact yes h
  · next h => exact no h

theorem unexpected (expected : Option Expectation) :
    TracksFrom topic c r post (unexpected expected : Parser α) := .error .here

theorem fail {v : Violation} {o : Origin} (other : ¬ v.IsEnd) :
    TracksFrom topic c r post (fail v o : Parser α) := .error (.other rfl other)

/-- Only at the end of the input can the current token not be consumed, or where the stream is cut off. -/
theorem consumed {f : Token → Parser β} (silent : c.Silent) (more : c.current.kind ≠ .endOfInput)
    (rest : ∀ ⦃c'⦄, Consumes c [c.current] c' → c'.Silent → TracksAt topic c r post (f c.current c')) :
    TracksFrom topic c r post (Parser.consume >>= f) := by
  unfold TracksFrom
  rw [bind_result]
  match ran : Parser.consume c with
  | .ok (t, c') =>
    obtain ⟨rfl, steps⟩ := consume_reads silent.ready more ran
    exact rest steps (steps.silent silent)
  | .error e =>
    have cut : c.failure = some e := by
      unfold Parser.consume at ran
      split at ran
      · cases ran
      · split at ran <;> cases ran
        assumption
    exact .error (.cut silent cut)

/-- A look ahead finds the token that is there. -/
theorem lookahead {f : Token → Parser β} (silent : c.Silent) (more : c.current.kind ≠ .endOfInput)
    (rest : ∀ ⦃c'⦄, Consumes c [c.current] c' → TracksFrom topic c r post (f c'.current)) :
    TracksFrom topic c r post (Parser.lookahead >>= f) := by
  unfold TracksFrom
  cases tokens : c.upcoming with
  | cons t ts =>
    have seen : Parser.lookahead c = .ok (t, c) := by simp [Parser.lookahead, tokens]
    rw [bind_eq seen]
    exact rest (.next tokens)
  | nil =>
    cases cut : c.failure with
    | none => exact absurd (silent.ready.kind_of_last tokens cut) more
    | some e =>
      have seen : Parser.lookahead c = .error e := by simp [Parser.lookahead, tokens, cut]
      rw [bind_result, seen]
      exact .error (.cut silent cut)

theorem consume (silent : c.Silent) (more : c.current.kind ≠ .endOfInput)
    (passed : r.pass topic c.current = some r₁) (holds : post r₁) :
    TracksFrom topic c r post Parser.consume := by
  have read : TracksFrom topic c r post (Parser.consume >>= Pure.pure) :=
    consumed silent more fun _ steps _ => .ok steps (Progress.after_one.trans passed) holds
  rwa [bind_pure] at read

/-- A token that opens nothing and closes nothing. -/
theorem consume_flat {k : TokenKind} (silent : c.Silent) (kind : c.current.kind = k)
    (more : k ≠ .endOfInput) (flat : k.isFlat = true) (holds : mid r.before) :
    TracksFrom topic c r (r.Keeps (Behind k mid)) Parser.consume := by
  subst kind
  exact consume silent more (Progress.pass_flat flat) ⟨rfl, _, rfl, holds⟩

/-- A token that is no mark. -/
theorem consume_word (silent : c.Silent) (more : c.current.kind ≠ .endOfInput)
    (word : ∀ m, c.current.kind ≠ .punctuator m) :
    TracksFrom topic c r (r.Keeps Unmarked) Parser.consume := by
  have flat : c.current.kind.isFlat = true := by
    cases kind : c.current.kind with
    | punctuator m => exact absurd kind (word m)
    | _ => rfl
  have read : TracksFrom topic c r (r.Keeps (Behind c.current.kind fun _ => True)) Parser.consume :=
    consume_flat silent rfl more flat trivial
  exact read.mono fun _ keeps => ⟨keeps.1, keeps.2.unmarked (word _)⟩

/-- The mark that is the counterpart of the innermost one that is open. -/
theorem consume_closing {o : OpenMark} {outer : List OpenMark} {m : Punctuator} (silent : c.Silent)
    (kind : c.current.kind = .punctuator m) (opened : r.opened = o :: outer)
    (closes : m.opener? = some o.mark) :
    TracksFrom topic c r (fun r' => r'.opened = outer ∧ Unmarked r'.before) Parser.consume := by
  refine consume silent (by simp [kind]) (Progress.pass_closing kind opened closes) ⟨rfl, ?_⟩
  simp only [kind, Unmarked, List.head?_cons]
  rintro ⟨⟩
  cases closes

end TracksFrom

/-- What comes next may be the same wherever the tokens in front meet a condition. -/
theorem TracksAt.goes_on {p : Parser α} {f : α → Parser β} {c₁ : Cursor} {setting : Setting}
    {mid last : List TokenKind → Prop} (h : TracksAt setting.topic c r (r.Keeps mid) (p c₁))
    (silent : c.Silent) (here : r.setting setting.topic = setting)
    (rest : ∀ a, Tracks setting mid (f a) last) :
    TracksAt setting.topic c r (r.Keeps last) ((p >>= f) c₁) :=
  .bind silent h fun a _ _ _ silent' keeps =>
    (rest a silent' (keeps.setting here) keeps.2).mono fun _ => keeps.trans

/-- A mark that is there is accepted as one that has to be there is consumed. -/
theorem accept_at {m : Punctuator} {f : Bool → Parser α}
    (kind : c.current.kind = .punctuator m) :
    (accept m >>= f) c = (expect m >>= fun _ => f true) c := by
  simp only [accept, expect, bind_assoc, atMark_bind, if_pos (decide_eq_true kind), pure_bind]

theorem accept_other {m : Punctuator} {f : Bool → Parser α}
    (other : c.current.kind ≠ .punctuator m) : (accept m >>= f) c = f false c := by
  rw [accept, bind_assoc, atMark_bind, if_neg (by simp [other]), pure_bind]

theorem acceptKeyword_at {word : String} {f : Bool → Parser α} (kind : c.current.kind = .name word) :
    (acceptKeyword word >>= f) c = (expectKeyword word >>= fun _ => f true) c := by
  simp only [acceptKeyword, expectKeyword, bind_assoc, atKeyword_bind,
    if_pos (TokenKind.isKeyword_iff.mpr kind), pure_bind]

theorem acceptKeyword_other {word : String} {f : Bool → Parser α}
    (other : c.current.kind ≠ .name word) : (acceptKeyword word >>= f) c = f false c := by
  rw [acceptKeyword, bind_assoc, atKeyword_bind, if_neg (by simp [other]), pure_bind]

namespace Tracks

variable {setting : Setting} {pre mid last pre' last' : List TokenKind → Prop} {p q : Parser α}
  {f : α → Parser β}

theorem mono (h : Tracks setting pre p last) (stronger : ∀ b, pre' b → pre b)
    (weaker : ∀ b, last b → last' b) : Tracks setting pre' p last' :=
  fun _ _ silent here holds =>
    (h silent here (stronger _ holds)).mono fun _ keeps => ⟨keeps.1, weaker _ keeps.2⟩

theorem pure (a : α) : Tracks setting pre (pure a) pre := fun _ _ _ _ holds => .pure ⟨rfl, holds⟩

theorem bind (h : Tracks setting pre p mid) (rest : ∀ a, Tracks setting mid (f a) last) :
    Tracks setting pre (p >>= f) last :=
  fun _ _ silent here holds => (h silent here holds).goes_on silent here rest

theorem map {f : α → β} (h : Tracks setting pre p last) : Tracks setting pre (f <$> p) last := by
  rw [map_eq_pure_bind]
  exact h.bind fun a => .pure (f a)

theorem look (looks : Looks p) (rest : ∀ a, Tracks setting pre (f a) last) :
    Tracks setting pre (p >>= f) last :=
  fun _ _ silent here holds => .look looks fun a _ => rest a silent here holds

theorem ite {b : Prop} [Decidable b] (yes : Tracks setting pre p last)
    (no : Tracks setting pre q last) : Tracks setting pre (if b then p else q) last :=
  fun _ _ silent here holds => .ite (fun _ => yes silent here holds) fun _ => no silent here holds

theorem spanned {start : Position} {f : Origin → α} :
    Tracks setting pre (do return f (← Parser.spanFrom start)) pre :=
  look (.spanFrom start) fun o => .pure (f o)

theorem unexpected (expected : Option Expectation) :
    Tracks setting pre (Parser.unexpected expected : Parser α) last :=
  fun _ _ _ _ _ => .unexpected expected

theorem fail {v : Violation} {o : Origin} (other : ¬ v.IsEnd) :
    Tracks setting pre (Parser.fail v o : Parser α) last := fun _ _ _ _ _ => .fail other

theorem tooDeep : Tracks setting pre (Parser.tooDeep : Parser α) last :=
  fun _ _ _ _ _ => .error (.other rfl fun ⟨_, same⟩ => by cases same)

theorem expect {m : Punctuator} (flat : m.isFlat = true) :
    Tracks setting pre (expect m) (Behind (.punctuator m) pre) := by
  intro c r silent here holds
  refine .look (.atMark m) fun b seen => .ite (fun found => ?_) fun _ => .unexpected _
  have kind : c.current.kind = .punctuator m := by simpa [found] using (atMark_ok.mp seen).1
  exact .consume_flat silent kind (by simp) flat holds

theorem expectKeyword (word : String) :
    Tracks setting pre (expectKeyword word) (Behind (.name word) pre) := by
  intro c r silent here holds
  refine .look (.atKeyword word) fun b seen => .ite (fun found => ?_) fun _ => .unexpected _
  have kind : c.current.kind = .name word := by simpa [found] using (atKeyword_ok.mp seen).1
  exact .consume_flat silent kind (by simp) rfl holds

/-- Something may depend on whether a mark has been accepted. -/
theorem accept {m : Punctuator} {f : Bool → Parser α} (flat : m.isFlat = true)
    (yes : Tracks setting (Behind (.punctuator m) pre) (f true) last)
    (no : Tracks setting pre (f false) last) :
    Tracks setting pre (Parser.accept m >>= f) last := by
  intro c r silent here holds
  unfold TracksFrom
  by_cases kind : c.current.kind = .punctuator m
  · rw [accept_at kind]
    exact ((expect flat).bind fun _ => yes) silent here holds
  · rw [accept_other kind]
    exact no silent here holds

theorem acceptKeyword {word : String} {f : Bool → Parser α}
    (yes : Tracks setting (Behind (.name word) pre) (f true) last)
    (no : Tracks setting pre (f false) last) :
    Tracks setting pre (Parser.acceptKeyword word >>= f) last := by
  intro c r silent here holds
  unfold TracksFrom
  by_cases kind : c.current.kind = .name word
  · rw [acceptKeyword_at kind]
    exact ((expectKeyword word).bind fun _ => yes) silent here holds
  · rw [acceptKeyword_other kind]
    exact no silent here holds

theorem expectEnd : Tracks setting pre expectEnd pre :=
  look .peek fun _ => ite (.pure ()) (.unexpected _)

/-- Each round of a loop starts where the one before has ended. -/
theorem collect {step : Parser (Option α)} (h : Tracks setting pre step pre) :
    Tracks setting pre (collect step) pre := by
  intro c r silent here holds
  induction size : c.upcoming.length using Nat.strong_induction_on generalizing c r with
  | _ size ih =>
    subst size
    have round := h silent here holds
    unfold TracksFrom at round ⊢
    rw [Parser.collect]
    generalize step c = x at round
    cases round with
    | error tells => exact .error tells
    | @ok o c' ts r' steps passed keeps =>
      cases o with
      | none => exact .ok steps passed keeps
      | some a =>
        simp only
        split
        · next shorter =>
          have later := ih _ shorter (steps.silent silent) (keeps.setting here) keeps.2 rfl
          have whole : TracksFrom setting.topic c' r' (r.Keeps pre) (do
              return a :: (← Parser.collect step)) := (later.mono fun _ => keeps.trans).returns
          have joined := TracksAt.behind whole steps passed keeps.1
          rw [bind_result] at joined
          cases rest : Parser.collect step c' <;> (rw [rest] at joined; exact joined)
        · exact .ok steps passed keeps

/-- Things one after another, as long as each starts with a mark. -/
theorem whileAt {m : Punctuator} {item : Parser α} (items : Tracks setting pre item pre) :
    Tracks setting pre (whileAt m item) pre :=
  collect <| .look (.atMark m) fun _ => .ite (items.bind fun a => .pure (some a)) (.pure none)

theorem markedItems {m : Punctuator} {item : Parser α} (flat : m.isFlat = true)
    (items : ∀ pre, Tracks setting pre item Unmarked) :
    Tracks setting Unmarked (markedItems m item) Unmarked :=
  collect (accept flat ((items _).bind fun a => .pure (some a)) (.pure none))

theorem separated {m : Punctuator} {item : Parser α} (flat : m.isFlat = true)
    (items : ∀ pre, Tracks setting pre item Unmarked) :
    Tracks setting Unmarked (separated m item) Unmarked := by
  have rest (a : α) : Tracks setting Unmarked (do return a :: (← Parser.markedItems m item))
      Unmarked := (markedItems flat items).bind fun as => .pure (a :: as)
  exact accept flat ((items _).bind rest) ((items _).bind rest)

end Tracks

/-- A parser that starts inside a mark and closes it. -/
def Shuts (topic : Topic) (m : Punctuator) (content : Content) (p : Parser α) : Prop :=
  ∀ ⦃c r t outer⦄, c.Silent → r.opened = ⟨m, t, content⟩ :: outer → Unmarked r.before →
    TracksFrom topic c r (fun r' => r'.opened = outer ∧ Unmarked r'.before) p

section Lists

variable {setting : Setting} {pre : List TokenKind → Prop} {content : Content}
  {opening closing : Punctuator} {item : Parser α}

/-- What comes before the closing mark. -/
theorem Shuts.after {p : Parser α} {f : α → Parser β}
    (h : Tracks ⟨topic, some content⟩ Unmarked p Unmarked)
    (rest : ∀ a, Shuts topic opening content (f a)) : Shuts topic opening content (p >>= f) := by
  intro c r t outer silent opened unmarked
  have here : r.setting topic = ⟨topic, some content⟩ := by simp [Progress.setting, opened]
  refine TracksAt.bind silent (h silent here unmarked) fun a c' r' _ silent' keeps => ?_
  exact rest a silent' (keeps.1.trans opened) keeps.2

theorem Shuts.expect (closes : closing.opener? = some opening) :
    Shuts topic opening content (expect closing) := by
  intro c r t outer silent opened unmarked
  exact .look (.atMark closing) fun b seen => .ite
    (fun found => .consume_closing silent (by simpa [found] using (atMark_ok.mp seen).1) opened closes)
    fun _ => .unexpected _

/-- Items are read until the mark is closed. Each of them has some token, so the loop ends nowhere else. -/
theorem Shuts.itemsUntil (items : Tracks ⟨topic, some content⟩ Unmarked item Unmarked)
    (advances : Advances item) (closes : closing.opener? = some opening) :
    Shuts topic opening content (itemsUntil closing item) := by
  intro c r t outer silent opened unmarked
  induction size : c.upcoming.length using Nat.strong_induction_on generalizing c r with
  | _ size ih =>
    subst size
    by_cases kind : c.current.kind = .punctuator closing
    · have ends : Parser.itemsUntil closing item c = (do return (fun _ => []) (← consume)) c := by
        simp only [Parser.itemsUntil, lifted_self, repeated_eq_collect]
        rw [Parser.collect, bind_result, accept, atMark_bind, if_pos (decide_eq_true kind), bind_result,
          bind_result]
        cases consume c <;> rfl
      unfold TracksFrom
      rw [ends]
      exact (TracksFrom.consume_closing silent kind opened closes).returns
    · have no_mark : accept closing c = .ok (false, c) := by
        rw [accept, atMark_bind, if_neg (by simp [kind])]
        rfl
      have round : (do if ← accept closing then return none else return some (← item) :
          Parser (Option α)) c = (do return some (← item)) c := by
        rw [bind_eq no_mark, if_neg (by simp)]
      have goes_on : Parser.itemsUntil closing item c =
          (do return (← item) :: (← Parser.itemsUntil closing item)) c := by
        simp only [Parser.itemsUntil, lifted_self, repeated_eq_collect]
        rw [collect_onward, bind_result, round]
        · rw [bind_result, bind_result]
          rcases item c with e | ⟨a, c'⟩ <;> rfl
        · intro a d ran
          obtain ⟨a', d', read, last⟩ := bind_ok.mp (round ▸ ran)
          cases last
          exact advances silent.ready read
      have here : r.setting topic = ⟨topic, some content⟩ := by simp [Progress.setting, opened]
      unfold TracksFrom
      rw [goes_on]
      refine TracksAt.bind silent (items silent here unmarked) fun a c' r' read silent' keeps => ?_
      exact (ih _ (advances silent.ready read) silent' (keeps.1.trans opened) keeps.2 rfl).returns

/-- One item or more. -/
theorem Shuts.itemsOnwards (items : Tracks ⟨topic, some content⟩ Unmarked item Unmarked)
    (advances : Advances item) (closes : closing.opener? = some opening) :
    Shuts topic opening content (do
      let first ← item
      let rest ← Parser.itemsUntil closing item
      return first :: rest) :=
  .after items fun _ _ _ _ _ silent opened unmarked =>
    (Shuts.itemsUntil items advances closes silent opened unmarked).returns

/-- An opening mark leads inside. -/
theorem Shuts.enter {p : Parser α} {o : OpenMark} (h : Shuts topic o.mark o.content p)
    (kind : o.token.kind = .punctuator o.mark)
    (opens : (r.setting topic).contentOf r.before o.mark = some o.content) (silent : c'.Silent) :
    ∃ r₁, r.pass topic o.token = some r₁ ∧ r₁.opened = o :: r.opened ∧
      TracksFrom topic c' r₁ (r.Keeps Unmarked) p := by
  have other : o.mark ≠ .atSign := by
    intro same
    rw [same] at opens
    cases opens
  exact ⟨_, Progress.pass_opening kind opens, rfl, h silent rfl (by simp [kind, Unmarked, other])⟩

/-- Where a mark is expected it is consumed, or something else stands there. -/
theorem TracksFrom.expected {f : Token → Parser α}
    (there : c.current.kind = .punctuator opening →
      TracksFrom topic c r post (Parser.consume >>= f)) :
    TracksFrom topic c r post (Parser.expect opening >>= f) := by
  unfold TracksFrom
  rw [Parser.expect, bind_assoc, atMark_bind]
  by_cases kind : c.current.kind = .punctuator opening
  · rw [if_pos (decide_eq_true kind)]
    exact there kind
  · rw [if_neg (by simp [kind])]
    exact .error .here

namespace Tracks

/-- What stands between marks that have these things inside. -/
theorem bracketed {p : Parser α} (h : Shuts setting.topic opening content p)
    (opens : ∀ b, pre b → setting.contentOf b opening = some content) (other : content ≠ .type) :
    Tracks setting pre (do
      let t ← Parser.expect opening
      let opened ← originOf t
      inside opening opened p) Unmarked := by
  intro c r silent here holds
  refine .expected fun kind => .consumed silent (by simp [kind]) fun c' steps silent' => ?_
  obtain ⟨r₁, passed, opened, inner⟩ := Shuts.enter (o := ⟨opening, c.current, content⟩) h kind
    (by rw [here]; exact opens _ holds) silent'
  rw [originOf_bind, steps.source]
  exact TracksAt.insideMark steps passed opened inner other

/-- Elements of a list type. -/
theorem bracketedType {p : Parser α} (h : Shuts setting.topic opening .type p)
    (opens : ∀ b, pre b → setting.contentOf b opening = some .type) :
    Tracks setting pre (do
      let _ ← Parser.expect opening
      p) Unmarked := by
  intro c r silent here holds
  refine .expected fun kind => .consumed silent (by simp [kind]) fun c' steps silent' => ?_
  obtain ⟨r₁, passed, opened, inner⟩ := Shuts.enter (o := ⟨opening, c.current, .type⟩) h kind
    (by rw [here]; exact opens _ holds) silent'
  exact TracksAt.insideType steps passed opened inner rfl

section Items

variable (items : Tracks ⟨setting.topic, some content⟩ Unmarked item Unmarked)
  (advances : Advances item) (closes : closing.opener? = some opening)
  (opens : ∀ b, pre b → setting.contentOf b opening = some content) (other : content ≠ .type)
include items advances closes opens other

theorem any : Tracks setting pre (any opening closing item) Unmarked :=
  bracketed (.itemsUntil items advances closes) opens other

theorem many : Tracks setting pre (many opening closing item) Unmarked :=
  bracketed (.itemsOnwards items advances closes) opens other

theorem optionalMany (unmarked : ∀ b, pre b → Unmarked b) :
    Tracks setting pre (optionalMany opening closing item) Unmarked :=
  .look (.atMark opening) fun _ => .ite (many items advances closes opens other)
    ((Tracks.pure []).mono unmarked fun _ => id)

end Items
end Tracks

end Lists
end Parser
end GraphQL
