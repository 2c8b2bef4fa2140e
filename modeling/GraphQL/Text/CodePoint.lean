/-! Sets of code points, as ranges. Each range is given by its first and its last code point. -/
namespace GraphQL.Text

/-- Whether some range contains a character. -/
def inRanges (ranges : List (Nat × Nat)) (c : Char) : Bool :=
  ranges.any fun (first, last) => first ≤ c.toNat && c.toNat ≤ last

/-- Ranges in ascending order with a gap between any two: the shortest list for their set. -/
def areApart : List (Nat × Nat) → Bool
  | [] => true
  | [(first, last)] => first ≤ last
  | (first, last) :: (next, stop) :: rest =>
    first ≤ last && last + 1 < next && areApart ((next, stop) :: rest)

/-- How many code points there are in ranges that are apart. -/
def codePointCount (ranges : List (Nat × Nat)) : Nat :=
  ranges.foldr (fun (first, last) n => last + 1 - first + n) 0

end GraphQL.Text
