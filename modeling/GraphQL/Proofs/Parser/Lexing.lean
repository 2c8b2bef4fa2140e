import GraphQL.Parser.Cursor
import GraphQL.Proofs.Scanner.Lookahead
import GraphQL.Proofs.Scanner.Progress
import GraphQL.Proofs.Scanner.Splitting

/-! A parser's cursor has all tokens of its source in front of it from the beginning. Its steps come to
the same tokens and errors as those of a lexer, which asks the scanner for one token after the other. -/
namespace GraphQL

namespace Lexer.Call

/-- The calls of a lexer as steps of a parser. -/
def step : Call → Parser Token
  | advance => do
    let _ ← Parser.consume
    Parser.peek
  | consume => Parser.consume
  | lookahead => Parser.lookahead

end Lexer.Call

namespace Cursor

/-- What comes after the current token. At the end of the input that token comes again. -/
def next (c : Cursor) : Except SyntaxError Token :=
  match c.upcoming, c.failure with
  | t :: _, _ => .ok t
  | [], some e => .error e
  | [], none => .ok c.current

/-- The cursor with another current token, behind the present one. -/
def move (c : Cursor) (t : Token) : Cursor :=
  { c with current := t, upcoming := c.upcoming.tail, lastEnd := c.current.stop }

theorem consume_eq (c : Cursor) :
    Parser.consume c = c.next.map fun t => (c.current, c.move t) := by
  obtain ⟨source, limit, current, _ | ⟨t, ts⟩, _ | e, lastEnd⟩ := c <;> rfl

theorem lookahead_eq (c : Cursor) : Parser.lookahead c = c.next.map fun t => (t, c) := by
  obtain ⟨source, limit, current, _ | ⟨t, ts⟩, _ | e, lastEnd⟩ := c <;> rfl

/-- What is in front of a cursor is what a scanner still meets, or else both are at the end. -/
inductive Awaits (c : Cursor) (scanner : Scanner) : Prop where
  | more (upcoming : c.upcoming = scanner.tokens.tokens) (failure : c.failure = scanner.tokens.failure)
  | done (upcoming : c.upcoming = []) (failure : c.failure = none)
      (ends : c.current.kind = .endOfInput) (again : scanner.next.1 = .ok c.current)

namespace Awaits

variable {c : Cursor} {scanner : Scanner} {t : Token}

theorem next_eq (h : c.Awaits scanner) : c.next = scanner.next.1 := by
  cases h with
  | more upcoming failure =>
    rw [next, upcoming, failure]
    rcases stepped : scanner.next with ⟨e | t, after⟩
    · rw [Scanner.tokens_cut_off stepped]
    · by_cases ends : t.kind = .endOfInput
      · rw [Scanner.tokens_last stepped ends]
      · rw [Scanner.tokens_more stepped ends]
  | done upcoming failure ends again => rw [next, upcoming, failure, again]

/-- With the next token as the current one, a cursor waits for what the scanner comes to after it. -/
theorem move (h : c.Awaits scanner) (found : scanner.next.1 = .ok t) :
    (c.move t).Awaits scanner.next.2 := by
  obtain ⟨after, behind⟩ : ∃ after, scanner.next.2 = after := ⟨_, rfl⟩
  have stepped : scanner.next = (.ok t, after) := Prod.ext found behind
  by_cases ends : t.kind = .endOfInput
  · obtain ⟨here, found', again, -⟩ := Scanner.next_of_isEnd ⟨t, found, ends⟩
    have stays : scanner.next.2.next.1 = .ok t := by rw [found', again, found]
    cases h with
    | more upcoming failure =>
      rw [Scanner.tokens_last stepped ends] at upcoming failure
      exact .done (by rw [Cursor.move, upcoming]; rfl) failure ends stays
    | done upcoming failure =>
      exact .done (by rw [Cursor.move, upcoming]; rfl) failure ends stays
  · cases h with
    | more upcoming failure =>
      rw [Scanner.tokens_more stepped ends] at upcoming failure
      rw [behind]
      exact .more (by rw [Cursor.move, upcoming]; rfl) failure
    | done upcoming failure already again =>
      rw [found] at again
      cases again
      exact absurd already ends

end Awaits

/-- A cursor is at some place of a source. -/
structure At (s : Source) (i : Nat) (c : Cursor) : Prop where
  current : s.found i = .ok c.current
  lastEnd : ∃ t, s.found (i - 1) = .ok t ∧ c.lastEnd = t.stop
  awaits : c.Awaits ((Scanner.start s).after i)

namespace At

variable {s : Source} {i : Nat} {c : Cursor} {t : Token} {e : SyntaxError}

theorem start (s : Source) (limit : Nat) : At s 0 (Parser.start s limit) where
  current := rfl
  lastEnd := ⟨_, rfl, rfl⟩
  awaits := .more rfl rfl

theorem next_eq (h : c.At s i) : c.next = s.found (i + 1) := h.awaits.next_eq

theorem move (h : c.At s i) (found : s.found (i + 1) = .ok t) : (c.move t).At s (i + 1) where
  current := found
  lastEnd := ⟨c.current, h.current, rfl⟩
  awaits := h.awaits.move found

/-- A step succeeds where there is a next token, and then it is what the call of a lexer is. -/
theorem step_ok (h : c.At s i) (found : s.found (i + 1) = .ok t) (call : Lexer.Call) :
    ∃ u c', s.found (i + call.distance) = .ok u ∧ call.step c = .ok (u, c') ∧
      c'.At s (i + call.moves) := by
  cases call with
  | advance =>
    refine ⟨t, c.move t, found, ?_, h.move found⟩
    simp only [Lexer.Call.step, bind, StateT.bind, consume_eq, h.next_eq, found]
    rfl
  | consume =>
    refine ⟨c.current, c.move t, h.current, ?_, h.move found⟩
    rw [Lexer.Call.step, consume_eq, h.next_eq, found]
    rfl
  | lookahead =>
    refine ⟨t, c, found, ?_, h⟩
    rw [Lexer.Call.step, lookahead_eq, h.next_eq, found]
    rfl

theorem step_error (h : c.At s i) (found : s.found (i + 1) = .error e) (call : Lexer.Call) :
    call.step c = .error e := by
  have next := h.next_eq.trans found
  cases call <;> simp [Lexer.Call.step, bind, StateT.bind, consume_eq, lookahead_eq, next, Except.map,
    Except.bind]

/-- Steps of a parser lead to where the calls of a lexer lead, if none of them fails. -/
theorem steps {l l' : Lexer} {calls : List Lexer.Call} (h : c.At s i) (there : l.At s i)
    (done : l.after calls = some l') :
    ∃ ts c', calls.mapM Lexer.Call.step c = .ok (ts, c') ∧ c'.At s (i + Lexer.movesOf calls) := by
  induction calls generalizing i c l with
  | nil => exact ⟨[], c, rfl, h⟩
  | cons call calls ih =>
    rw [Lexer.after] at done
    cases next : s.found (i + 1) with
    | error e =>
      obtain ⟨l₁, ran, -⟩ := there.run_error next call
      simp [ran] at done
    | ok t =>
      obtain ⟨l₁, ran, there, -⟩ := there.run_ok next call
      obtain ⟨u, c₁, found, stepped, here⟩ := h.step_ok next call
      rw [ran, found] at done
      obtain ⟨ts, c', later, here⟩ := ih here there done
      refine ⟨u :: ts, c', ?_, by rwa [Lexer.movesOf_cons, ← Nat.add_assoc]⟩
      simp only [List.mapM_cons, bind, StateT.bind, stepped, Except.bind, later]
      rfl

end At
end Cursor

/-- Whatever calls of a lexer succeed, a parser comes to the same place by the same steps, and one more
call has the same answer there, be it a token or an error. -/
theorem Parser.steps_lex {s : Source} {calls : List Lexer.Call} {l : Lexer}
    (done : (Lexer.start s).after calls = some l) (limit : Nat) :
    ∃ ts c, calls.mapM Lexer.Call.step (start s limit) = .ok (ts, c) ∧ c.current = l.current ∧
      c.lastEnd = l.lastEnd ∧ ∀ call : Lexer.Call, (call.step c).map Prod.fst = (call.run l).1 := by
  have there : l.At s (Lexer.movesOf calls) := by simpa using (Lexer.At.start s).after done
  obtain ⟨ts, c, ran, here⟩ := (Cursor.At.start s limit).steps (Lexer.At.start s) done
  rw [Nat.zero_add] at here
  refine ⟨ts, c, ran, ?_, ?_, fun call => ?_⟩
  · exact Except.ok.inj (here.current.symm.trans there.current)
  · obtain ⟨t, found, stop⟩ := here.lastEnd
    obtain ⟨u, found', stop'⟩ := there.lastEnd
    obtain rfl := Except.ok.inj (found.symm.trans found')
    rw [stop, stop']
  · cases next : s.found (Lexer.movesOf calls + 1) with
    | error e =>
      obtain ⟨l', fails, -⟩ := there.run_error next call
      rw [here.step_error next call, fails]
      rfl
    | ok t =>
      obtain ⟨u, c', found, stepped, -⟩ := here.step_ok next call
      obtain ⟨l', answer, -⟩ := there.run_ok next call
      rw [stepped, answer, found]
      rfl

end GraphQL
