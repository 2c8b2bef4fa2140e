import GraphQL.Lexer
import GraphQL.Proofs.Scanner.Positions

/-! A cursor that can look ahead shows what the scanner comes to, one token after the other, however
its calls are mixed, and asks the scanner for one token more than it is at, at most. -/
namespace GraphQL

/-- What a source has at each place: the start of the input, and then what one step of the scanner
after the other comes to. -/
def Source.found (s : Source) : Nat → Except SyntaxError Token
  | 0 => .ok ⟨.startOfInput, .first, .first⟩
  | i + 1 => ((Scanner.start s).after i).next.1

namespace Lexer

/-- What can be asked of a cursor. -/
inductive Call where
  | advance
  | consume
  | lookahead
  deriving DecidableEq

namespace Call

def run : Call → Lexer → Except SyntaxError Token × Lexer
  | advance => Lexer.advance
  | consume => Lexer.consume
  | lookahead => Lexer.lookahead

/-- How far from the current token the one is that a call returns. -/
def distance : Call → Nat
  | consume => 0
  | advance | lookahead => 1

/-- How many tokens the cursor is moved over. -/
def moves : Call → Nat
  | advance | consume => 1
  | lookahead => 0

end Call

/-- How many calls of some move the cursor. -/
def movesOf (calls : List Call) : Nat := calls.countP (· ≠ .lookahead)

@[simp] theorem movesOf_nil : movesOf [] = 0 := rfl

@[simp] theorem movesOf_cons (call : Call) (calls : List Call) :
    movesOf (call :: calls) = call.moves + movesOf calls := by
  cases call <;> simp [movesOf, Call.moves, Nat.add_comm]

/-- The cursor after some calls, if none of them fails. -/
def after (l : Lexer) : List Call → Option Lexer
  | [] => some l
  | call :: calls =>
    match call.run l with
    | (.ok _, l') => l'.after calls
    | (.error _, _) => none

/-- A cursor is at some place of a source. The scanner is there as well, or one token further, which
the cursor then keeps. -/
structure At (s : Source) (i : Nat) (l : Lexer) : Prop where
  /-- Nothing failed up to here. -/
  sound : ∀ j ≤ i, ∃ t, s.found j = .ok t
  current : s.found i = .ok l.current
  lastEnd : ∃ t, s.found (i - 1) = .ok t ∧ l.lastEnd = t.stop
  ahead : ∀ t ∈ l.ahead, s.found (i + 1) = .ok t
  scanner : l.scanner = (Scanner.start s).after (i + l.ahead.toList.length)

/-- A call that fails leaves the cursor where it is, with the scanner behind what it failed at. -/
structure Stays (s : Source) (i : Nat) (l l' : Lexer) : Prop where
  current : l'.current = l.current
  lastEnd : l'.lastEnd = l.lastEnd
  scanner : l'.scanner = (Scanner.start s).after (i + 1)

namespace At

variable {s : Source} {i : Nat} {l : Lexer} {t : Token} {e : SyntaxError}

theorem start (s : Source) : At s 0 (.start s) where
  sound j least := by
    obtain rfl := Nat.le_zero.mp least
    exact ⟨_, rfl⟩
  current := rfl
  lastEnd := ⟨_, rfl, rfl⟩
  ahead := by simp [Lexer.start]
  scanner := rfl

/-- What comes after the current token is fetched only once: the scanner is asked for it unless it
is kept. -/
theorem fetch (h : At s i l) :
    l.fetch = (s.found (i + 1),
      { l with scanner := (Scanner.start s).after (i + 1), ahead := none }) := by
  cases kept : l.ahead with
  | some t =>
    have scanner : l.scanner = (Scanner.start s).after (i + 1) := by simpa [kept] using h.scanner
    simp [Lexer.fetch, kept, h.ahead t kept, ← scanner]
  | none =>
    have scanner : l.scanner = (Scanner.start s).after i := by simpa [kept] using h.scanner
    simp [Lexer.fetch, kept, scanner, Source.found, Scanner.after]

/-- The next place, where the next token is the current one. -/
theorem move (h : At s i l) (next : s.found (i + 1) = .ok t) :
    At s (i + 1) ⟨(Scanner.start s).after (i + 1), t, none, l.current.stop⟩ where
  sound j least := by
    rcases Nat.le_succ_iff.mp least with before | rfl
    · exact h.sound j before
    · exact ⟨t, next⟩
  current := next
  lastEnd := ⟨l.current, h.current, rfl⟩
  ahead := by simp
  scanner := rfl

/-- The same place, with the next token kept. -/
theorem keep (h : At s i l) (next : s.found (i + 1) = .ok t) :
    At s i ⟨(Scanner.start s).after (i + 1), l.current, some t, l.lastEnd⟩ where
  sound := h.sound
  current := h.current
  lastEnd := h.lastEnd
  ahead := by simpa using next
  scanner := rfl

theorem answer (h : At s i l) (next : s.found (i + 1) = .ok t) (call : Call) :
    ∃ u, s.found (i + call.distance) = .ok u := by
  cases call with
  | consume => exact ⟨_, h.current⟩
  | advance | lookahead => exact ⟨t, next⟩

/-- A call succeeds where there is a next token. -/
theorem run_ok (h : At s i l) (next : s.found (i + 1) = .ok t) (call : Call) :
    ∃ l', call.run l = (s.found (i + call.distance), l') ∧ At s (i + call.moves) l' ∧
      (call = .lookahead → l'.current = l.current ∧ l'.lastEnd = l.lastEnd) := by
  cases call with
  | advance =>
    refine ⟨_, ?_, h.move next, by simp⟩
    simp [Call.run, Call.distance, Lexer.advance, Lexer.consume, h.fetch, next]
  | consume =>
    refine ⟨_, ?_, h.move next, by simp⟩
    simp [Call.run, Call.distance, Lexer.consume, h.fetch, next, h.current]
  | lookahead =>
    refine ⟨_, ?_, h.keep next, fun _ => ⟨rfl, rfl⟩⟩
    simp [Call.run, Call.distance, Lexer.lookahead, h.fetch, next]

/-- Where the scanner fails next, every call fails. -/
theorem run_error (h : At s i l) (next : s.found (i + 1) = .error e) (call : Call) :
    ∃ l', call.run l = (.error e, l') ∧ Stays s i l l' := by
  refine ⟨{ l with scanner := (Scanner.start s).after (i + 1), ahead := none }, ?_, rfl, rfl, rfl⟩
  cases call <;>
    simp [Call.run, Lexer.advance, Lexer.consume, Lexer.lookahead, h.fetch, next]

/-- Calls that succeed move the cursor by their number, those apart that only look ahead. -/
theorem after {l' : Lexer} {calls : List Call} (h : At s i l) (done : l.after calls = some l') :
    At s (i + movesOf calls) l' := by
  induction calls generalizing i l with
  | nil =>
    cases done
    exact h
  | cons call calls ih =>
    rw [Lexer.after] at done
    cases next : s.found (i + 1) with
    | error e =>
      obtain ⟨l₁, ran, -⟩ := h.run_error next call
      simp [ran] at done
    | ok t =>
      obtain ⟨l₁, ran, there, -⟩ := h.run_ok next call
      obtain ⟨u, answer⟩ := h.answer next call
      rw [ran, answer] at done
      rw [movesOf_cons, ← Nat.add_assoc]
      exact ih there done

end At
end Lexer

/-- A cursor shows the stream of its source. After calls that succeeded, `i` of which moved it, it is at
place `i`. One more call returns the current token or the next one; it fails just if the scanner fails
at the next place, for the first time, and then the cursor stays where it is. -/
theorem cursor_shows_stream {s : Source} {calls : List Lexer.Call} {l : Lexer}
    (done : (Lexer.start s).after calls = some l) :
    let i := Lexer.movesOf calls
    l.At s i ∧ ∀ call : Lexer.Call,
      (∀ t, s.found (i + 1) = .ok t → ∃ l', call.run l = (s.found (i + call.distance), l') ∧
        l'.At s (i + call.moves) ∧
        (call = .lookahead → l'.current = l.current ∧ l'.lastEnd = l.lastEnd)) ∧
      (∀ e, s.found (i + 1) = .error e → ∃ l', call.run l = (.error e, l') ∧ l.Stays s i l') := by
  intro i
  have there : l.At s i := by simpa using (Lexer.At.start s).after done
  exact ⟨there, fun call => ⟨fun t next => there.run_ok next call, fun e next => there.run_error next call⟩⟩

/-- Two looks ahead, two moves and one more look, in front of a character that is no token. -/
theorem cursor_shows_stream_fault :
    let s : Source := ⟨"a b ~", Source.defaultName⟩
    let calls : List Lexer.Call := [.lookahead, .lookahead, .advance, .consume]
    ∃ l, (Lexer.start s).after calls = some l ∧ l.current.kind = .name "b" ∧
      l.lastEnd = ⟨0, 1, 1, 1⟩ ∧
      ∃ e l', Lexer.lookahead l = (.error e, l') ∧ l'.current = l.current := by
  intro s calls
  obtain ⟨l, done⟩ : ∃ l, (Lexer.start s).after calls = some l :=
    Option.isSome_iff_exists.mp (by decide +kernel)
  obtain ⟨there, call⟩ := cursor_shows_stream done
  have second : (s.found 2) = .ok ⟨.name "b", ⟨0, 2, 2, 2⟩, ⟨0, 3, 3, 3⟩⟩ := by decide +kernel
  have current : l.current = ⟨.name "b", ⟨0, 2, 2, 2⟩, ⟨0, 3, 3, 3⟩⟩ :=
    Except.ok.inj (there.current.symm.trans second)
  have first : s.found 1 = .ok ⟨.name "a", ⟨0, 0, 0, 0⟩, ⟨0, 1, 1, 1⟩⟩ := by decide +kernel
  obtain ⟨t, before, stop⟩ := there.lastEnd
  obtain rfl := Except.ok.inj (before.symm.trans first)
  obtain ⟨e, fails⟩ : ∃ e, s.found 3 = .error e := by
    cases third : s.found 3 with
    | error e => exact ⟨e, rfl⟩
    | ok t =>
      have fails : (s.found 3).isOk = false := by decide +kernel
      rw [third] at fails
      cases fails
  obtain ⟨l', ran, stays⟩ := (call .lookahead).2 e fails
  exact ⟨l, done, by rw [current], stop, e, l', ran, stays.current⟩

end GraphQL
