import GraphQL.Scanner
import Mathlib.Data.List.DropRight

/-! Positions of tokens and faults: each is what the text before it says, however the scanner came
there. -/
namespace GraphQL

namespace Text

/-- How many line breaks a text has. A carriage return and a line feed after it are one. -/
def breaks : List Char → Nat
  | [] => 0
  | '\r' :: '\n' :: cs => breaks cs + 1
  | c :: cs => if isTerminator c then breaks cs + 1 else breaks cs

/-- What stands after the last line break of a text. -/
def lastLine (cs : List Char) : List Char := cs.rtakeWhile (!isTerminator ·)

/-- A line feed after a carriage return belongs to a break that is counted already. -/
theorem breaks_concat (cs : List Char) (c : Char) :
    breaks (cs ++ [c]) =
      if isTerminator c ∧ ¬(c = '\n' ∧ cs.getLast? = some '\r') then breaks cs + 1
      else breaks cs := by
  fun_induction breaks cs with
  | case1 => simp [breaks]
  | case2 cs ih =>
    have last : ('\r' :: '\n' :: cs).getLast? = some '\r' ↔ cs.getLast? = some '\r' := by
      cases cs <;> simp [List.getLast?_cons]
    simp only [List.cons_append, breaks, ih, last]
    split <;> rfl
  | case3 d cs pair h ih =>
    cases cs with
    | nil =>
      by_cases both : d = '\r' ∧ c = '\n'
      · obtain ⟨rfl, rfl⟩ := both
        rfl
      · rw [List.cons_append, breaks.eq_3 _ _ (by grind), if_pos h]
        cases hc : isTerminator c
        · simp [breaks, hc]
        · have : ¬(c = '\n' ∧ d = '\r') := fun h => both h.symm
          simp [breaks, hc, this]
    | cons e cs =>
      have later : ∀ ds, d = '\r' → e :: cs ++ [c] = '\n' :: ds → False := by
        intro ds hd same
        rw [List.cons_append, List.cons.injEq] at same
        exact pair cs hd (by rw [same.1])
      rw [List.cons_append, breaks.eq_3 _ _ later, if_pos h, ih]
      simp only [List.getLast?_cons_cons]
      split <;> rfl
  | case4 d cs pair h ih =>
    have no_return : d ≠ '\r' := by
      rintro rfl
      simp [isTerminator] at h
    have last : (d :: cs).getLast? = some '\r' ↔ cs.getLast? = some '\r' := by
      cases cs <;> simp [no_return]
    rw [List.cons_append, breaks.eq_3 _ _ fun _ hd => absurd hd no_return, if_neg h, ih]
    simp only [last]

theorem lastLine_concat (cs : List Char) (c : Char) :
    lastLine (cs ++ [c]) = if isTerminator c then [] else lastLine cs ++ [c] := by
  cases h : isTerminator c <;> simp [lastLine, h]

end Text

/-- The position at the end of a text: its line breaks, what stands after the last of them counted
in characters and in units, and its bytes. -/
def Position.ending (cs : List Char) : Position :=
  ⟨Text.breaks cs, (Text.lastLine cs).length, Text.length16 (Text.lastLine cs),
    Text.byteLength cs⟩

/-- The position at a byte of a text, if a character begins or the text ends there. -/
def Position.at? (cs : List Char) (offset : Nat) : Option Position :=
  (Text.splitAtByte offset cs).map fun (before, _) => .ending before

/-- A position is exact in a text if all its counts are those of its offset. -/
def Position.Exact (cs : List Char) (p : Position) : Prop := Position.at? cs p.offset = some p

theorem Position.exact_ending (before after : List Char) :
    (Position.ending before).Exact (before ++ after) := by
  simp [Position.Exact, Position.at?, Position.ending, Text.splitAtByte_append]

/-- Counting along a text comes to the position at its end. The memory of a carriage return is
what tells a line feed of its own from the second half of a break. -/
theorem Place.pass_first (cs : List Char) :
    Place.first.pass cs = ⟨.ending cs, decide (cs.getLast? = some '\r')⟩ := by
  induction cs using List.reverseRecOn with
  | nil => rfl
  | append_singleton cs c ih =>
    have offset : Text.byteLength (cs ++ [c]) = Text.byteLength cs + c.utf8Size := by simp
    rw [Place.pass_append, ih, Place.pass_cons, Place.pass_nil]
    simp only [Position.ending, Text.breaks_concat, Text.lastLine_concat, offset]
    by_cases feed : c = '\n'
    · subst feed
      by_cases after : cs.getLast? = some '\r'
      · obtain ⟨before, rfl⟩ := List.getLast?_eq_some_iff.mp after
        simp [Place.step, Text.isTerminator, Text.lastLine_concat]
      · simp [Place.step, Text.isTerminator, after]
    · by_cases carriage : c = '\r'
      · subst carriage
        simp [Place.step, Text.isTerminator]
      · simp [Place.step, Text.isTerminator, feed, carriage]

namespace Scanner

variable {source : Source} {s : Scanner}

/-- The scanner after a number of steps, whatever came of them. -/
def after (s : Scanner) : Nat → Scanner
  | 0 => s
  | n + 1 => (s.after n).next.2

/-- Both ends of a token, and of the origin of a fault, are exact. -/
def EndsExact (cs : List Char) : Except SyntaxError Token → Prop
  | .ok t => t.start.Exact cs ∧ t.stop.Exact cs
  | .error e => e.origin.start.Exact cs ∧ e.origin.stop.Exact cs

/-- What a scanner has read and what is left make up its source, and its place is the one after
what it has read. -/
def IsIn (s : Scanner) (source : Source) : Prop :=
  ∃ before, source.chars = before ++ s.rest ∧ s.place = Place.first.pass before

theorem IsIn.moveOver (h : s.IsIn source) (passed rest : List Char)
    (text : s.rest = passed ++ rest) : (s.moveOver passed rest).IsIn source := by
  obtain ⟨before, chars, place⟩ := h
  exact ⟨before ++ passed, by simp [Scanner.moveOver, chars, text],
    by simp [Scanner.moveOver, place]⟩

theorem IsIn.exact (h : s.IsIn source) : s.place.position.Exact source.chars := by
  obtain ⟨before, chars, place⟩ := h
  rw [place, chars, Place.pass_first]
  exact Position.exact_ending before s.rest

theorem IsIn.skipIgnored (h : s.IsIn source) : s.skipIgnored.IsIn source := by
  rw [skipIgnored_eq]
  exact h.moveOver _ _ (Lexeme.splitIgnored_append false s.rest).symm

theorem IsIn.locate (h : s.IsIn source) {l : Lexeme} (whole : s.rest = l.whole) :
    EndsExact source.chars (s.locate l) := by
  have start : (s.place.pass l.before).position.Exact source.chars :=
    (h.moveOver _ (l.taken ++ l.rest) (by rw [whole, Lexeme.whole, List.append_assoc])).exact
  have stop : (s.place.pass (l.before ++ l.taken)).position.Exact source.chars :=
    (h.moveOver _ l.rest whole).exact
  unfold Scanner.locate
  cases l.outcome <;> exact ⟨start, stop⟩

/-- One step keeps to the source, and what it gives has exact ends. -/
theorem IsIn.next (h : s.IsIn source) :
    EndsExact source.chars s.next.1 ∧ s.next.2.IsIn source := by
  have here := h.skipIgnored
  unfold Scanner.next
  dsimp only
  split
  · exact ⟨⟨here.exact, here.exact⟩, here⟩
  · next c cs text =>
    have whole : s.skipIgnored.rest = (Lexeme.read c cs).whole := by
      rw [text, Lexeme.whole_read]
    exact ⟨here.locate whole, here.moveOver _ _ whole⟩

theorem isIn_after (source : Source) (n : Nat) : ((start source).after n).IsIn source := by
  induction n with
  | zero => exact ⟨[], rfl, rfl⟩
  | succ n ih => exact ih.next.2

end Scanner

/-- Positions depend on the text before them alone: in every step of a scanner, also after faults,
both ends of what it gives are exact. Comments, which are passed at once, count as if they were
passed character by character. -/
theorem positions_exact (source : Source) (n : Nat) :
    Scanner.EndsExact source.chars ((Scanner.start source).after n).next.1 ∧
      ∀ s : Scanner, s.skipIgnored =
        s.moveOver (Lexeme.splitIgnored false s.rest).1 (Lexeme.splitIgnored false s.rest).2 :=
  ⟨(Scanner.isIn_after source n).next.1, Scanner.skipIgnored_eq⟩

example : let text := "#é\r\n\"🎉\r\n\rx".toList
    Position.at? text 10 = some ⟨1, 2, 3, 10⟩ ∧ Position.at? text 13 = some ⟨3, 0, 0, 13⟩ ∧
      Position.at? text 7 = none := by decide

end GraphQL
