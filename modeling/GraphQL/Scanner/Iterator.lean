import GraphQL.Scanner

/-! Scanners as streams: what they come to, one item after the other, up to the end or to the first
fault. A scanner can be read on after that, but its stream has ended. -/
namespace GraphQL

/-- A scanner, and whether it has come to the end of its source or to a fault. -/
structure TokenIterator where
  scanner : Scanner
  finished : Bool

namespace TokenIterator

/-- The items of a source from its beginning. -/
def start (source : Source) : TokenIterator := ⟨Scanner.start source, false⟩

/-- Items after which nothing comes: the end of the input, and faults. -/
def isLast : Except SyntaxError Token → Bool
  | .error _ => true
  | .ok t => t.kind = .endOfInput

/-- Reads on, whether or not the stream has ended. -/
def read (i : TokenIterator) : Except SyntaxError Token × TokenIterator :=
  let (item, scanner) := i.scanner.next
  (item, ⟨scanner, i.finished || isLast item⟩)

/-- The next item of the stream, unless it has ended. -/
def next? (i : TokenIterator) : Option (Except SyntaxError Token) × TokenIterator :=
  if i.finished then (none, i)
  else
    let (item, i) := i.read
    (some item, i)

end TokenIterator
end GraphQL
