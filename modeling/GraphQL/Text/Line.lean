/-! Lines of a text. A line ends at a line feed, at a carriage return, or at both in this order. -/
namespace GraphQL.Text

/-- The two characters that end a line. -/
def isTerminator (c : Char) : Bool := c == '\n' || c == '\r'

/-- The lines of a text without their ends; an end at the very last is followed by an empty line. -/
def lines : List Char → List (List Char)
  | [] => [[]]
  | '\r' :: '\n' :: cs => [] :: lines cs
  | c :: cs => if isTerminator c then [] :: lines cs else (lines cs).modifyHead (c :: ·)

theorem lines_ne_nil (cs : List Char) : lines cs ≠ [] := by
  fun_induction lines cs with
  | case1 => simp
  | case2 => simp
  | case3 => simp
  | case4 c cs _ _ ih =>
    cases h : lines cs with
    | nil => exact absurd h ih
    | cons l ls => simp

/-- Line `n` of a text, counted from zero. -/
def line? (n : Nat) (cs : List Char) : Option (List Char) := (lines cs)[n]?

example : lines "a\r\nb\rc\n".toList = ["a".toList, "b".toList, "c".toList, []] := by decide

end GraphQL.Text
