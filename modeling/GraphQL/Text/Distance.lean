/-! How far two words are apart: the least number of characters to insert, drop or replace. -/
namespace GraphQL.Text

/-- What it costs to make one character into another. -/
def changeCost (a b : Char) : Nat := if a = b then 0 else 1

/-- The row of the table of distances for the character `a` at the index `i` of the first word. It is
written over the cells of an old row, each from the cells to its left, above it and between these. -/
def distanceRow (word : List Char) (a : Char) (i : Nat) (above old : Array Nat) : Array Nat :=
  Id.run do
    let mut row := old.set! 0 (i + 1)
    for (b, j) in word.zipIdx do
      row := row.set! (j + 1)
        (min (min (above[j + 1]! + 1) (row[j]! + 1)) (above[j]! + changeCost a b))
    return row

/-- The edit distance of two words: the last cell of the last row. Only two rows are kept, which are
written in turns. -/
def distance (a b : List Char) : Nat := Id.run do
  let mut above := Array.range (b.length + 1)
  let mut spare := Array.replicate (b.length + 1) 0
  for (c, i) in a.zipIdx do
    (above, spare) := (distanceRow b c i above spare, above)
  return above[b.length]!

example : distance "kitten".toList "sitting".toList = 3 := by decide +kernel
example : distance [] "abc".toList = 3 ∧ distance "abc".toList [] = 3 := by decide

/-- Keeps the nearest word so far, of equally near ones the first, if it is at most `limit` away. -/
def closer (limit : Nat) (word : List Char) (best : Option (String × Nat)) (w : String) :
    Option (String × Nat) :=
  let d := distance word w.toList
  match best with
  | none => if d ≤ limit then some (w, d) else none
  | some (_, least) => if d < least then some (w, d) else best

/-- The first of the words that are nearest to `word`, if they are at most `limit` away. -/
def nearest? (limit : Nat) (word : List Char) (words : List String) : Option String :=
  (words.foldl (closer limit word) none).map (·.1)

end GraphQL.Text
