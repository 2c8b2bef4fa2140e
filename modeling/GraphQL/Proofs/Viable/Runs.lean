import GraphQL.Proofs.Scanner.Spaced
import GraphQL.Proofs.Sound.Repetition
import GraphQL.Proofs.Viable.Marks

/-! Viable parsers: what such a parser consumes belongs to a language, and where it stops at a token
that does not fit, the tokens before that one can still be completed to a member of the language. -/
namespace GraphQL

open Spelling Computability

deriving instance Nonempty for
  Position, Source, Origin, TokenKind, Token, Name, NamedType, OperationKind

instance : Nonempty NullableType := ⟨.named (Classical.arbitrary _)⟩

deriving instance Nonempty for TypeRef, Value

/-- Errors about a token that fits no rule. -/
def Violation.IsUnexpected : Violation → Prop
  | .unexpected _ _ => True
  | _ => False

/-- An error about the token that a cursor is at. -/
structure SyntaxError.Misfit (e : SyntaxError) (c : Cursor) : Prop where
  origin : e.origin = c.current.origin c.source
  violation : ∃ expected, e.violation = .unexpected expected c.current.kind

theorem SyntaxError.Misfit.within {e : SyntaxError} {c : Cursor} (h : e.Misfit c) (m : Punctuator)
    (o : Origin) : (e.within m o).Misfit c := by
  obtain ⟨origin, violation⟩ := h
  unfold SyntaxError.within
  split
  · exact ⟨origin, violation⟩
  · exact ⟨origin, violation⟩

/-- A place in a stream that is not cut off. -/
structure Cursor.Whole (c : Cursor) : Prop where
  ready : c.Ready
  complete : c.failure = none

/-- Only at its end can a stream not be consumed further. -/
theorem Cursor.Whole.consume {c : Cursor} (w : c.Whole) (more : c.current.kind ≠ .endOfInput) :
    ∃ c', Parser.consume c = .ok (c.current, c') ∧ Consumes c [c.current] c' := by
  match ran : Parser.consume c with
  | .ok (t, c') =>
    obtain ⟨rfl, steps⟩ := Parser.consume_reads w.ready more ran
    exact ⟨c', rfl, steps⟩
  | .error e =>
    unfold Parser.consume at ran
    split at ran
    · cases ran
    · simp [w.complete] at ran

/-- A look ahead tells what the next token is. -/
theorem Consumes.lookahead {c c' : Cursor} (h : Consumes c [c.current] c') :
    Parser.lookahead c = .ok (c'.current, c) := by
  have pending := h.pending
  simp only [Cursor.pending, List.singleton_append, List.cons.injEq, true_and] at pending
  simp only [Parser.lookahead, pending]

theorem Cursor.Whole.accept {c : Cursor} (w : c.Whole) (m : Punctuator) :
    (∃ c', Parser.accept m c = .ok (true, c') ∧ Consumes c [c.current] c' ∧
      c.current.kind = .punctuator m) ∨
    Parser.accept m c = .ok (false, c) ∧ c.current.kind ≠ .punctuator m := by
  rw [Parser.accept, Parser.atMark_bind]
  by_cases kind : c.current.kind = .punctuator m
  · obtain ⟨c', ran, steps⟩ := w.consume (by simp [kind])
    rw [if_pos (decide_eq_true kind), Parser.bind_eq ran]
    exact .inl ⟨c', rfl, steps, kind⟩
  · rw [if_neg (by simp [kind])]
    exact .inr ⟨rfl, kind⟩

theorem Cursor.Whole.acceptKeyword {c : Cursor} (w : c.Whole) (word : String) :
    (∃ c', Parser.acceptKeyword word c = .ok (true, c') ∧ Consumes c [c.current] c' ∧
      c.current.kind = .name word) ∨
    Parser.acceptKeyword word c = .ok (false, c) := by
  rw [Parser.acceptKeyword, Parser.atKeyword_bind]
  by_cases kind : c.current.kind = .name word
  · obtain ⟨c', ran, steps⟩ := w.consume (by simp [kind])
    rw [if_pos (TokenKind.isKeyword_iff.mpr kind), Parser.bind_eq ran]
    exact .inl ⟨c', rfl, steps, kind⟩
  · rw [if_neg (by rw [TokenKind.isKeyword_iff]; exact kind)]
    exact .inr rfl

theorem Consumes.whole {c c' : Cursor} {ts : List Token} (h : Consumes c ts c') (w : c.Whole) :
    c'.Whole := ⟨h.ready w.ready, h.failure.trans w.complete⟩

/-- Some tokens are the first of a member of a language, whose other tokens can be written. -/
def Completes (L : Spelling) (ks : List TokenKind) : Prop :=
  ∃ more, ks ++ more ∈ L ∧ ∀ k ∈ more, k.Lexes

namespace Completes

variable {A B : Spelling} {ks ls : List TokenKind}

theorem mono (h : Completes A ks) (sub : ∀ ls ∈ A, ls ∈ B) : Completes B ks := by
  obtain ⟨more, mem, lexes⟩ := h
  exact ⟨more, sub _ mem, lexes⟩

theorem one : Completes 1 [] := ⟨[], rfl, by simp⟩

theorem word {k : TokenKind} (lexes : k.Lexes) : Completes (Spelling.word k) [] :=
  ⟨[k], mem_word.mpr rfl, by simpa using lexes⟩

theorem mark (m : Punctuator) : Completes (Spelling.mark m) [] := word (TokenKind.lexes_mark m)

theorem keyword {text : String} (known : IsName text) : Completes (Spelling.keyword text) [] :=
  word (TokenKind.lexes_name known)

theorem mul (h : Completes A ks) (h' : Completes B []) : Completes (A * B) ks := by
  obtain ⟨more, mem, lexes⟩ := h
  obtain ⟨more', mem', lexes'⟩ := h'
  refine ⟨more ++ more', ?_, ?_⟩
  · rw [← List.append_assoc]
    exact Language.append_mem_mul mem mem'
  · intro k hk
    rcases List.mem_append.mp hk with hk | hk
    · exact lexes k hk
    · exact lexes' k hk

theorem after (first : ks ∈ A) (h : Completes B ls) : Completes (A * B) (ks ++ ls) := by
  obtain ⟨more, mem, lexes⟩ := h
  refine ⟨more, ?_, lexes⟩
  rw [List.append_assoc]
  exact Language.append_mem_mul first mem

theorem star : Completes A∗ [] := ⟨[], Language.nil_mem_kstar A, by simp⟩

theorem inl (h : Completes A ks) : Completes (A + B) ks := h.mono fun _ => .inl

theorem inr (h : Completes B ks) : Completes (A + B) ks := h.mono fun _ => .inr

end Completes

/-- What may be asked of the tokens that stand in front of one that does not fit, and of the marks
that they leave open. -/
abbrev Condition := List TokenKind → List Punctuator → Prop

/-- A condition that still holds with fewer tokens in front. -/
class Condition.TailClosed (ok : Condition) : Prop where
  tail : ∀ ⦃ks ls opened⦄, ok (ks ++ ls) opened → ok ls opened

/-- Fewer than so many levels are open, and where nothing may vary no variable is begun. -/
def Clear (const : Bool) (levels : Nat) : Condition := fun ks opened =>
  opened.countP (·.nests) < levels ∧ (const = true → ks.getLast? ≠ some (.punctuator .dollar))

instance (const : Bool) (levels : Nat) : (Clear const levels).TailClosed where
  tail ks ls opened holds := by
    refine ⟨holds.1, fun constant last => holds.2 constant ?_⟩
    rw [List.getLast?_append, last]
    rfl

namespace Parser

variable {α β : Type} {ok ok' : Condition} {A B L : Spelling} {c c₁ c₂ : Cursor} {e : SyntaxError}

/-- Tokens of a language lie between two places, with all marks closed. -/
def Passes (L : Spelling) (c c' : Cursor) : Prop :=
  ∃ ts, Consumes c ts c' ∧ kinds ts ∈ L ∧ LeavesOpen (kinds ts) []

/-- A run that consumed some tokens and found that the next one does not fit. If the condition holds
of them, they can be completed. -/
def Halts (ok : Condition) (L : Spelling) (c : Cursor) (e : SyntaxError) : Prop :=
  ∃ ts c' opened, Consumes c ts c' ∧ e.Misfit c' ∧ LeavesOpen (kinds ts) opened ∧
    (ok (kinds ts) opened → Completes L (kinds ts))

/-- The result of a run from some place. -/
def ViableAt (ok : Condition) (L : Spelling) (c : Cursor) :
    Except SyntaxError (α × Cursor) → Prop
  | .ok (_, c') => Passes L c c'
  | .error e => e.violation.IsUnexpected → Halts ok L c e

/-- All runs of a parser are such runs, and there is something to complete no tokens to. -/
structure Viable (ok : Condition) (p : Parser α) (L : Spelling) : Prop where
  run : ∀ ⦃c⦄, c.Whole → ViableAt ok L c (p c)
  blank : ∀ ⦃ks opened⦄, ok ks opened → Completes L []

namespace Passes

theorem refl (c : Cursor) : Passes 1 c c := ⟨[], .refl c, rfl, .nil⟩

theorem trans (h : Passes A c c₁) (h' : Passes B c₁ c₂) : Passes (A * B) c c₂ := by
  obtain ⟨ts, steps, mem, closed⟩ := h
  obtain ⟨us, steps', mem', closed'⟩ := h'
  refine ⟨ts ++ us, steps.trans steps', ?_, ?_⟩
  · rw [kinds, List.map_append]
    exact Language.append_mem_mul mem mem'
  · rw [kinds, List.map_append]
    exact closed.behind closed'

theorem mono (h : Passes A c c₁) (sub : ∀ ks ∈ A, ks ∈ B) : Passes B c c₁ := by
  obtain ⟨ts, steps, mem, closed⟩ := h
  exact ⟨ts, steps, sub _ mem, closed⟩

theorem whole (h : Passes A c c₁) (w : c.Whole) : c₁.Whole := by
  obtain ⟨ts, steps, -⟩ := h
  exact steps.whole w

theorem progress (h : Passes A c c₁) (some_token : [] ∉ A) :
    c₁.upcoming.length < c.upcoming.length := by
  obtain ⟨ts, steps, mem, -⟩ := h
  apply steps.length_lt
  rintro rfl
  exact some_token mem

end Passes

namespace Halts

theorem mono (h : Halts ok A c e) (sub : ∀ ks ∈ A, ks ∈ B)
    (weaker : ∀ ks opened, ok' ks opened → ok ks opened) : Halts ok' B c e := by
  obtain ⟨ts, c', opened, steps, misfit, leaves, completes⟩ := h
  exact ⟨ts, c', opened, steps, misfit, leaves, fun holds => (completes (weaker _ _ holds)).mono sub⟩

/-- A run that halts goes on from tokens that have been read. -/
theorem after (first : Passes A c c₁) (h : Halts ok' B c₁ e)
    (weaker : ∀ ks ls opened, ks ∈ A → LeavesOpen ks [] → ok (ks ++ ls) opened → ok' ls opened) :
    Halts ok (A * B) c e := by
  obtain ⟨ts, steps, mem, closed⟩ := first
  obtain ⟨us, c', opened, steps', misfit, leaves, completes⟩ := h
  refine ⟨ts ++ us, c', opened, steps.trans steps', misfit, ?_, ?_⟩
  · rw [kinds, List.map_append]
    exact closed.behind leaves
  · rw [kinds, List.map_append]
    exact fun holds => .after mem (completes (weaker _ _ _ mem closed holds))

/-- Other things can come after what a run halts in. -/
theorem before (h : Halts ok A c e) (rest : ∀ ks opened, ok ks opened → Completes B []) :
    Halts ok (A * B) c e := by
  obtain ⟨ts, c', opened, steps, misfit, leaves, completes⟩ := h
  exact ⟨ts, c', opened, steps, misfit, leaves,
    fun holds => (completes holds).mul (rest _ _ holds)⟩

/-- A token that nothing can start with. -/
theorem here {expected : Option Expectation} (blank : ∀ ks opened, ok ks opened → Completes L []) :
    Halts ok L c ⟨.unexpected expected c.current.kind, c.current.origin c.source, []⟩ :=
  ⟨[], c, [], .refl c, ⟨rfl, expected, rfl⟩, .nil, fun holds => blank _ _ holds⟩

theorem within (h : Halts ok L c e) (m : Punctuator) (o : Origin) :
    Halts ok L c (e.within m o) := by
  obtain ⟨ts, c', opened, steps, misfit, leaves, completes⟩ := h
  exact ⟨ts, c', opened, steps, misfit.within m o, leaves, completes⟩

end Halts

namespace ViableAt

theorem pure {a : α} : ViableAt ok 1 c ((pure a : Parser α) c) := Passes.refl c

theorem mono {x : Except SyntaxError (α × Cursor)} (h : ViableAt ok A c x)
    (sub : ∀ ks ∈ A, ks ∈ B) (weaker : ∀ ks opened, ok' ks opened → ok ks opened) :
    ViableAt ok' B c x := by
  match x, h with
  | .ok (a, c'), passes => exact Passes.mono passes sub
  | .error e, halts => exact fun unexpected => (halts unexpected).mono sub weaker

/-- What follows tokens that have been read. -/
theorem after {x : Except SyntaxError (α × Cursor)} (first : Passes A c c₁)
    (h : ViableAt ok' B c₁ x)
    (weaker : ∀ ks ls opened, ks ∈ A → LeavesOpen ks [] → ok (ks ++ ls) opened → ok' ls opened) :
    ViableAt ok (A * B) c x := by
  match x, h with
  | .ok (a, c'), passes => exact first.trans passes
  | .error e, halts => exact fun unexpected => (halts unexpected).after first weaker

/-- The general law for one run after another, each with a condition of its own. -/
theorem seq {p : Parser α} {f : α → Parser β} (whole : c.Whole)
    (first : ViableAt ok A c (p c₁))
    (rest : ∀ ⦃a c'⦄, p c₁ = .ok (a, c') → c'.Whole → ViableAt ok' B c' (f a c'))
    (weaker : ∀ ks ls opened, ks ∈ A → LeavesOpen ks [] → ok (ks ++ ls) opened → ok' ls opened)
    (blank : ∀ ks opened, ok ks opened → Completes B []) :
    ViableAt ok (A * B) c ((p >>= f) c₁) := by
  rw [bind_result]
  match ran : p c₁ with
  | .error e =>
    rw [ran] at first
    exact fun unexpected => (first unexpected).before blank
  | .ok (a, c') =>
    rw [ran] at first
    have passes : Passes A c c' := first
    exact after passes (rest ran (passes.whole whole)) weaker

theorem map {p : Parser α} {f : α → β} (h : ViableAt ok A c (p c₁)) :
    ViableAt ok A c ((f <$> p) c₁) := by
  rw [map_eq_pure_bind, bind_result]
  match p c₁, h with
  | .ok (a, c'), passes => exact passes
  | .error e, halts => exact halts

theorem unexpected {expected : Option Expectation}
    (blank : ∀ ks opened, ok ks opened → Completes L []) :
    ViableAt ok L c ((unexpected expected : Parser α) c) := fun _ => .here blank

/-- A token of a known sort. -/
theorem consume {k : TokenKind} (whole : c.Whole) (kind : c.current.kind = k)
    (more : k ≠ .endOfInput) (flat : k.isFlat = true) :
    ViableAt ok (word k) c (consume c) := by
  obtain ⟨c', ran, steps⟩ := whole.consume (kind ▸ more)
  rw [ran]
  subst kind
  exact ⟨[c.current], steps, by simp, .flat flat⟩

/-- A token that is looked at after it has been read. -/
theorem token {f : Token → Parser α} (whole : c.Whole) (more : c.current.kind ≠ .endOfInput)
    (flat : c.current.kind.isFlat = true)
    (reads : ∀ c', (∃ a, f c.current c' = .ok (a, c') ∧ [c.current.kind] ∈ L) ∨
      ∃ e, f c.current c' = .error e ∧ ¬ e.violation.IsUnexpected) :
    ViableAt ok L c ((Parser.consume >>= f) c) := by
  obtain ⟨c', ran, steps⟩ := whole.consume more
  rw [bind_eq ran]
  rcases reads c' with ⟨a, read, mem⟩ | ⟨e, failed, other⟩
  · rw [read]
    exact ⟨[c.current], steps, mem, .flat flat⟩
  · rw [failed]
    exact fun unexpected => absurd unexpected other

end ViableAt

/-- A parser that only looks at where it is, and not at the tokens after that. -/
def Looks (p : Parser α) : Prop :=
  ∃ f : Source → Token → Position → α, ∀ c, p c = .ok (f c.source c.current c.lastEnd, c)

namespace Looks

theorem here : Looks here := ⟨fun _ t _ => t.start, fun _ => rfl⟩

theorem peek : Looks peek := ⟨fun _ t _ => t, fun _ => rfl⟩

theorem spanFrom (start : Position) : Looks (spanFrom start) :=
  ⟨fun s _ last => ⟨s, start, last⟩, fun _ => rfl⟩

theorem originOf (t : Token) : Looks (originOf t) := ⟨fun s _ _ => t.origin s, fun _ => rfl⟩

theorem atMark (m : Punctuator) : Looks (atMark m) :=
  ⟨fun _ t _ => decide (t.kind = .punctuator m), fun _ => rfl⟩

theorem atKeyword (word : String) : Looks (atKeyword word) :=
  ⟨fun _ t _ => t.kind.isKeyword word, fun _ => rfl⟩

end Looks

namespace Viable

variable {p q : Parser α} {f : α → Parser β}

theorem mono (h : Viable ok p A) (sub : ∀ ks ∈ A, ks ∈ B)
    (weaker : ∀ ks opened, ok' ks opened → ok ks opened) : Viable ok' p B where
  run _ whole := (h.run whole).mono sub weaker
  blank _ _ holds := (h.blank (weaker _ _ holds)).mono sub

theorem sub (h : Viable ok p A) (sub : ∀ ks ∈ A, ks ∈ B) : Viable ok p B :=
  h.mono sub fun _ _ => id

theorem pure (a : α) : Viable ok (pure a) 1 := ⟨fun _ _ => .pure, fun _ _ _ => .one⟩

theorem bind [ok.TailClosed] [Nonempty α] (h : Viable ok p A) (rest : ∀ a, Viable ok (f a) B) :
    Viable ok (p >>= f) (A * B) where
  run _ whole := (h.run whole).seq whole (fun a _ _ whole' => (rest a).run whole')
    (fun _ _ _ _ _ holds => Condition.TailClosed.tail holds)
    (rest (Classical.arbitrary α)).blank
  blank _ _ holds := (h.blank holds).mul ((rest (Classical.arbitrary α)).blank holds)

/-- Where the condition is another one behind what has been read. -/
theorem andThen (h : Viable ok p A) (behind : Condition) (rest : ∀ a, Viable behind (f a) B)
    (weaker : ∀ ks ls opened, ks ∈ A → LeavesOpen ks [] → ok (ks ++ ls) opened → behind ls opened)
    (blank : ∀ ks opened, ok ks opened → Completes B []) : Viable ok (p >>= f) (A * B) where
  run _ whole := (h.run whole).seq whole (fun a _ _ whole' => (rest a).run whole') weaker blank
  blank _ _ holds := (h.blank holds).mul (blank _ _ holds)

/-- What has no tokens of its own may come last, whatever the condition is. -/
theorem ends (h : Viable ok p A) (rest : ∀ a, Viable (fun _ _ => True) (f a) 1) :
    Viable ok (p >>= f) A where
  run c whole := by
    have read : ViableAt ok (A * 1) c ((p >>= f) c) :=
      (h.run whole).seq whole (fun a _ _ whole' => (rest a).run whole')
        (fun _ _ _ _ _ _ => trivial) fun _ _ _ => .one
    rwa [mul_one] at read
  blank := h.blank

theorem map {f : α → β} (h : Viable ok p A) : Viable ok (f <$> p) A where
  run _ whole := (h.run whole).map
  blank := h.blank

/-- A mark that has to be there. -/
theorem expect {m : Punctuator} (flat : m.isFlat = true) : Viable ok (expect m) (mark m) where
  run c whole := by
    rw [Parser.expect, atMark_bind]
    split
    · next at_mark => exact .consume whole (of_decide_eq_true at_mark) (by simp) flat
    · exact .unexpected fun _ _ _ => .mark m
  blank _ _ _ := .mark m

theorem expectKeyword {word : String} (known : IsName word) :
    Viable ok (expectKeyword word) (keyword word) where
  run c whole := by
    rw [Parser.expectKeyword, atKeyword_bind]
    split
    · next at_word => exact .consume whole (TokenKind.isKeyword_iff.mp at_word) (by simp) rfl
    · exact .unexpected fun _ _ _ => .keyword known
  blank _ _ _ := .keyword known

/-- What comes after a look round. -/
theorem look [Nonempty α] (looks : Looks p) (rest : ∀ a, Viable ok (f a) A) :
    Viable ok (p >>= f) A where
  run c whole := by
    obtain ⟨g, seen⟩ := looks
    rw [bind_eq (seen c)]
    exact (rest _).run whole
  blank := (rest (Classical.arbitrary α)).blank

/-- One parser or another. -/
theorem ite {P : Prop} [Decidable P] (yes : Viable ok p A) (no : Viable ok q B) :
    Viable ok (if P then p else q) (A + B) where
  run c whole := by
    split
    · exact (yes.run whole).mono (fun _ => .inl) fun _ _ => id
    · exact (no.run whole).mono (fun _ => .inr) fun _ _ => id
  blank _ _ holds := (no.blank holds).inr

/-- What is built with an origin. -/
theorem spanned {start : Position} {f : Origin → α} :
    Viable ok (do return f (← Parser.spanFrom start)) 1 :=
  look (.spanFrom start) fun o => .pure (f o)

/-- One parser after a mark, another where the mark is missing. -/
theorem accept {m : Punctuator} (flat : m.isFlat = true) (yes : Viable ok' p A)
    (no : Viable ok q B)
    (weaker : ∀ ks opened, ok ([.punctuator m] ++ ks) opened → ok' ks opened) :
    Viable ok (do if ← accept m then p else q) (mark m * A + B) where
  run c whole := by
    rcases whole.accept m with ⟨c', ran, steps, kind⟩ | ⟨ran, -⟩
    · have passes : Passes (mark m) c c' :=
        ⟨_, steps, by simp [kind], by simpa [kind] using .flat flat⟩
      rw [bind_eq ran, if_pos rfl]
      refine (ViableAt.after passes (yes.run (passes.whole whole)) ?_).mono (fun _ => .inl)
        fun _ _ => id
      intro ks ls opened mem closed holds
      rw [mem_word.mp mem] at holds
      exact weaker _ _ holds
    · rw [bind_eq ran, if_neg (by simp)]
      exact (no.run whole).mono (fun _ => .inr) fun _ _ => id
  blank _ _ holds := (no.blank holds).inr

/-- A mark that may be there. -/
theorem acceptOnly {m : Punctuator} (flat : m.isFlat = true) :
    Viable ok (Parser.accept m) (mark m + 1) where
  run c whole := by
    rcases whole.accept m with ⟨c', ran, steps, kind⟩ | ⟨ran, -⟩
    · rw [ran]
      exact ⟨_, steps, .inl (mem_word.mpr (by simp [kind])), by simpa [kind] using .flat flat⟩
    · rw [ran]
      exact (Passes.refl c).mono fun _ => .inr
  blank _ _ _ := .inr .one

/-- A word that may be there. -/
theorem acceptKeywordOnly {word : String} :
    Viable ok (Parser.acceptKeyword word) (keyword word + 1) where
  run c whole := by
    rcases whole.acceptKeyword word with ⟨c', ran, steps, kind⟩ | ran
    · rw [ran]
      exact ⟨_, steps, .inl (mem_word.mpr (by simp [kind])), by simpa [kind] using .flat rfl⟩
    · rw [ran]
      exact (Passes.refl c).mono fun _ => .inr
  blank _ _ _ := .inr .one

/-- One parser after a word, another where the word is missing. -/
theorem acceptKeyword [ok.TailClosed] {word : String} (yes : Viable ok p A) (no : Viable ok q B) :
    Viable ok (do if ← Parser.acceptKeyword word then p else q) (keyword word * A + B) where
  run c whole := by
    rcases whole.acceptKeyword word with ⟨c', ran, steps, kind⟩ | ran
    · have passes : Passes (keyword word) c c' :=
        ⟨_, steps, by simp [kind], by simpa [kind] using .flat rfl⟩
      rw [bind_eq ran, if_pos rfl]
      exact (ViableAt.after passes (yes.run (passes.whole whole))
        fun _ _ _ _ _ holds => Condition.TailClosed.tail holds).mono (fun _ => .inl) fun _ _ => id
    · rw [bind_eq ran, if_neg (by simp)]
      exact (no.run whole).mono (fun _ => .inr) fun _ _ => id
  blank _ _ holds := (no.blank holds).inr

end Viable
end Parser
end GraphQL
