import GraphQL.Proofs.Scanner.Positions
import GraphQL.Proofs.Scanner.Stream
import GraphQL.Scanner.Iterator
import Mathlib.Data.Nat.Find
import Mathlib.Logic.Function.Iterate

/-! Progress of scanning. Every step takes characters, also one that comes to a fault, but for those
at the end of the input; so the end is reached, and a stream has a last item. -/
namespace GraphQL

/-- The end of the input. -/
def TokenIterator.IsEnd (item : Except SyntaxError Token) : Prop :=
  ∃ t, item = .ok t ∧ t.kind = .endOfInput

open TokenIterator (IsEnd)

theorem Text.byteLength_pos {cs : List Char} (ne : cs ≠ []) : 0 < byteLength cs := by
  obtain ⟨c, cs, rfl⟩ := List.exists_cons_of_ne_nil ne
  exact Nat.add_pos_left c.utf8Size_pos _

namespace Scanner

variable {s : Scanner} {n m : Nat}

/-- Every step but those at the end of the input takes bytes. -/
theorem offset_next (s : Scanner) :
    IsEnd s.next.1 ∨ s.place.position.offset < s.next.2.place.position.offset := by
  unfold next
  simp only [skipIgnored_eq, moveOver]
  split
  · exact .inl ⟨_, rfl, rfl⟩
  · next c cs _ =>
    have taken := Text.byteLength_pos (Lexeme.taken_read_ne_nil c cs)
    right
    simp only [Place.pass_offset]
    omega

/-- At the end of the input a scanner stays. -/
theorem next_of_isEnd (h : IsEnd s.next.1) :
    ∃ here, s.next = (.ok ⟨.endOfInput, here.place.position, here.place.position⟩, here) ∧
      here.next = s.next ∧ here.rest = [] := by
  obtain ⟨⟨kind, start, stop⟩, item, rfl : kind = .endOfInput⟩ := h
  obtain ⟨here, behind⟩ : ∃ here, s.next.2 = here := ⟨_, rfl⟩
  have stepped : s.next = (.ok ⟨.endOfInput, start, stop⟩, here) := Prod.ext item behind
  obtain ⟨-, gap, -, starts, place, stops, sort⟩ := next_parts stepped
  have rest : here.rest = [] := by
    rcases sort with ⟨-, rest⟩ | ⟨word, -⟩
    · exact rest
    · exact absurd rfl word.notEnd
  have nothing : (TokenKind.endOfInput).written.toList = [] := rfl
  dsimp only at starts stops place
  rw [nothing, List.append_nil] at place
  rw [← place] at starts
  subst starts stops
  refine ⟨here, stepped, ?_, rest⟩
  rw [stepped]
  obtain ⟨source, place, text⟩ := here
  obtain rfl : text = [] := rest
  rfl

/-- As long as the end has not been reached, every step leaves fewer characters. -/
theorem length_after (more : ∀ m < n, ¬IsEnd (s.after m).next.1) :
    (s.after n).rest.length + n ≤ s.rest.length := by
  induction n with
  | zero => exact Nat.le_refl _
  | succ n ih =>
    have before := ih fun m less => more m (Nat.lt_succ_of_lt less)
    have shorter : (s.after n).next.2.rest.length < (s.after n).rest.length := by
      rcases (s.after n).length_next with ⟨p, item⟩ | shorter
      · exact absurd ⟨_, item, rfl⟩ (more n (Nat.lt_succ_self n))
      · exact shorter
    rw [after]
    omega

/-- The end is reached, after no more steps than there are characters. -/
theorem exists_isEnd (s : Scanner) :
    ∃ n ≤ s.rest.length, IsEnd (s.after n).next.1 ∧ ∀ m < n, ¬IsEnd (s.after m).next.1 := by
  classical
  have reached : ∃ n, IsEnd (s.after n).next.1 := by
    by_contra never
    have more := not_exists.mp never
    have := length_after (s := s) (n := s.rest.length + 1) fun m _ => more m
    omega
  refine ⟨Nat.find reached, ?_, Nat.find_spec reached, fun m => Nat.find_min reached⟩
  exact Nat.le_of_add_left_le (length_after fun m => Nat.find_min reached)

/-- After the end, every step comes to the same end again. -/
theorem next_after_isEnd (h : IsEnd (s.after n).next.1) (le : n ≤ m) :
    (s.after m).next = (s.after n).next := by
  induction m, le using Nat.le_induction with
  | base => rfl
  | succ m le ih =>
    rw [← ih] at h ⊢
    obtain ⟨here, stepped, again, -⟩ := next_of_isEnd h
    rw [after, stepped] at *
    exact again.trans stepped

/-- The end of the input is where the text ends. -/
theorem next_at_end {source : Source} (h : IsEnd ((start source).after n).next.1) :
    ((start source).after n).next.1 =
      .ok ⟨.endOfInput, .after source.chars, .after source.chars⟩ := by
  obtain ⟨here, stepped, -, rest⟩ := next_of_isEnd h
  obtain ⟨before, chars, place⟩ : here.IsIn source := by
    have inside := isIn_after source (n + 1)
    rwa [after, stepped] at inside
  rw [rest, List.append_nil] at chars
  rw [stepped, place, Position.after, chars]

end Scanner

namespace TokenIterator

variable {source : Source}

/-- The iterator after some reading, whether or not its stream has ended. -/
def afterReads (i : TokenIterator) (n : Nat) : TokenIterator := (fun i => i.read.2)^[n] i

/-- The iterator after it has been asked for some items. -/
def afterItems (i : TokenIterator) (n : Nat) : TokenIterator := (fun i => i.next?.2)^[n] i

/-- Reading moves the scanner, and finishes the stream once there is a last item. -/
theorem afterReads_start (source : Source) (n : Nat) :
    (start source).afterReads n = ⟨(Scanner.start source).after n,
      decide (∃ m < n, isLast ((Scanner.start source).after m).next.1)⟩ := by
  induction n with
  | zero => simp [afterReads, start, Scanner.after]
  | succ n ih =>
    rw [afterReads, Function.iterate_succ_apply', ← afterReads, ih]
    simp only [read, Scanner.after, Nat.exists_lt_succ_right, Bool.decide_or, Bool.decide_eq_true]

theorem read_afterReads (source : Source) (n : Nat) :
    ((start source).afterReads n).read.1 = ((Scanner.start source).after n).next.1 := by
  rw [afterReads_start]
  rfl

theorem finished_afterReads (source : Source) (n : Nat) :
    ((start source).afterReads n).finished = true ↔
      ∃ m < n, isLast ((start source).afterReads m).read.1 = true := by
  simp only [read_afterReads]
  rw [afterReads_start, decide_eq_true_iff]

/-- A stream that has ended gives nothing any more. -/
theorem next?_finished {i : TokenIterator} (ended : i.finished = true) : i.next? = (none, i) := by
  simp [next?, ended]

theorem next?_unfinished {i : TokenIterator} (goes_on : i.finished = false) :
    i.next? = (some i.read.1, i.read.2) := by
  simp [next?, goes_on]

theorem afterItems_finished {i : TokenIterator} (ended : i.finished = true) (n : Nat) :
    i.afterItems n = i :=
  Function.iterate_fixed (by rw [next?_finished ended]) n

/-- The items of a stream are what is read, up to the last item, whatever has been read before. -/
theorem next?_afterItems (source : Source) (k m : Nat) :
    (((start source).afterReads k).afterItems m).next?.1 =
      if ∃ j < k + m, isLast ((start source).afterReads j).read.1 = true then none
      else some ((start source).afterReads (k + m)).read.1 := by
  induction m generalizing k with
  | zero =>
    rw [Nat.add_zero]
    by_cases ended : ((start source).afterReads k).finished = true
    · rw [if_pos ((finished_afterReads source k).mp ended)]
      exact congrArg Prod.fst (next?_finished ended)
    · rw [if_neg ((finished_afterReads source k).not.mp ended)]
      exact congrArg Prod.fst (next?_unfinished (Bool.eq_false_iff.mpr ended))
  | succ m ih =>
    by_cases ended : ((start source).afterReads k).finished = true
    · obtain ⟨j, before, last⟩ := (finished_afterReads source k).mp ended
      rw [if_pos ⟨j, Nat.lt_add_right (m + 1) before, last⟩, afterItems_finished ended]
      exact congrArg Prod.fst (next?_finished ended)
    · have moved : ((start source).afterReads k).next?.2 = (start source).afterReads (k + 1) := by
        rw [next?_unfinished (Bool.eq_false_iff.mpr ended), afterReads, afterReads,
          Function.iterate_succ_apply']
      have later := ih (k + 1)
      rw [Nat.add_right_comm, Nat.add_assoc] at later
      rw [afterItems, Function.iterate_succ_apply, moved]
      exact later

end TokenIterator

/-- The items of a stream in order: its tokens, and what it fails with. -/
def TokenStream.items (ts : TokenStream) : List (Except SyntaxError Token) :=
  ts.tokens.map .ok ++ ts.failure.toList.map .error

namespace Scanner

variable {s s' : Scanner} {item : Except SyntaxError Token}

/-- A scanner as a stream that goes on. -/
abbrev stream (s : Scanner) : TokenIterator := ⟨s, false⟩

theorem next?_stream (h : s.next = (item, s')) :
    s.stream.next? = (some item, ⟨s', TokenIterator.isLast item⟩) := by
  simp [TokenIterator.next?, TokenIterator.read, h]

theorem stream_last (h : s.next = (item, s')) (last : TokenIterator.isLast item = true) (m : Nat) :
    (s.stream.afterItems m).next?.1 = [item][m]? := by
  cases m with
  | zero => exact congrArg Prod.fst (next?_stream h)
  | succ m =>
    rw [TokenIterator.afterItems, Function.iterate_succ_apply, next?_stream h, last]
    show (TokenIterator.afterItems ⟨s', true⟩ m).next?.1 = none
    rw [TokenIterator.afterItems_finished rfl]
    rfl

/-- A stream gives the tokens of its scanner, and what they end with. -/
theorem stream_tokens (s : Scanner) (m : Nat) :
    (s.stream.afterItems m).next?.1 = s.tokens.items[m]? := by
  fun_induction tokens s generalizing m with
  | case1 s e s' h => exact stream_last h rfl m
  | case2 s t s' h ends => exact stream_last h (decide_eq_true ends) m
  | case3 s t s' h more later ih =>
    have goes_on : TokenIterator.isLast (.ok t) = false := decide_eq_false more
    cases m with
    | zero => exact congrArg Prod.fst (next?_stream h)
    | succ m =>
      rw [TokenIterator.afterItems, Function.iterate_succ_apply, next?_stream h, goes_on]
      exact ih m

end Scanner

open TokenIterator in
/-- Scanning ends. However often a source is read on, also after faults, every reading but those at the
end of the input takes bytes. The end comes after no more readings than there are characters, at the
end of the text, and from then on always. A stream gives what is read up to the end or the first
fault, whatever has been read before, and then nothing; from the beginning on these are the tokens of
the source. -/
theorem scanning_ends (source : Source) :
    let reader := (TokenIterator.start source).afterReads
    (∀ n, IsEnd (reader n).read.1 ∨
      (reader n).scanner.place.position.offset < (reader n).read.2.scanner.place.position.offset) ∧
    (∃ n ≤ source.chars.length, (∀ m < n, ¬IsEnd (reader m).read.1) ∧
      ∀ m, n ≤ m →
        (reader m).read.1 = .ok ⟨.endOfInput, .after source.chars, .after source.chars⟩) ∧
    (∀ k m, ((reader k).afterItems m).next?.1 =
      if ∃ j < k + m, isLast (reader j).read.1 = true then none
      else some (reader (k + m)).read.1) ∧
    ∀ m, ((TokenIterator.start source).afterItems m).next?.1 = source.tokens.items[m]? := by
  intro reader
  have read : ∀ n, (reader n).read.1 = ((Scanner.start source).after n).next.1 :=
    read_afterReads source
  refine ⟨fun n => ?_, ?_, next?_afterItems source, (Scanner.start source).stream_tokens⟩
  · have step := ((Scanner.start source).after n).offset_next
    simp only [reader, afterReads_start]
    exact step
  · obtain ⟨n, few, ends, first⟩ := (Scanner.start source).exists_isEnd
    refine ⟨n, few, fun m less => by rw [read]; exact first m less, fun m le => ?_⟩
    rw [read, Scanner.next_after_isEnd ends le, Scanner.next_at_end ends]

open TokenIterator in
/-- An unclosed string that stops in front of a line end, two dots and a name: the stream has one item,
and reading on comes to the end with the fourth call. -/
theorem scanning_ends_after_faults :
    let source : Source := ⟨"\"a\n.. b", "f"⟩
    let reader := (TokenIterator.start source).afterReads
    (∀ m < 3, ¬IsEnd (reader m).read.1 ∧
      (reader m).scanner.place.position.offset < (reader m).read.2.scanner.place.position.offset) ∧
    (∀ m, 3 ≤ m →
      (reader m).read.1 = .ok ⟨.endOfInput, .after source.chars, .after source.chars⟩) ∧
    ∀ m, 0 < m → ((reader 0).afterItems m).next?.1 = none := by
  intro source reader
  obtain ⟨progress, ⟨n, -, before, ends⟩, items, -⟩ := scanning_ends source
  have kinds : ∀ m < 3, (reader m).read.1.toOption.map (·.kind) ≠ some .endOfInput := by
    decide +kernel
  have last : (reader 3).read.1.toOption.map (·.kind) = some .endOfInput := by decide +kernel
  have more : ∀ m < 3, ¬IsEnd (reader m).read.1 := by
    rintro m less ⟨t, item, kind⟩
    exact kinds m less (by rw [item]; exact congrArg some kind)
  have third : IsEnd (reader 3).read.1 := by
    cases item : (reader 3).read.1 with
    | error e => simp [item, Except.toOption] at last
    | ok t => exact ⟨t, rfl, by simpa [item, Except.toOption] using last⟩
  have fault : isLast (reader 0).read.1 = true := by decide +kernel
  have reached : n ≤ 3 := Nat.le_of_not_lt fun less => before 3 less third
  refine ⟨fun m less => ⟨more m less, (progress m).resolve_left (more m less)⟩,
    fun m le => ends m (reached.trans le), fun m pos => ?_⟩
  rw [items 0 m, if_pos ⟨0, by omega, fault⟩]

end GraphQL
