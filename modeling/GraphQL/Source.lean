import GraphQL.Text.Slice
import GraphQL.Text.Line

/-! Sources, positions in them, and origins: the part of a source that a piece of syntax covers. -/
namespace GraphQL

/-- A position in a text. All four counts start at zero. -/
structure Position where
  line : Nat
  /-- Characters since the line began. -/
  column : Nat
  /-- UTF-16 units since the line began. -/
  column16 : Nat
  /-- Bytes of UTF-8 since the text began. -/
  offset : Nat
  deriving DecidableEq

namespace Position

def first : Position := ⟨0, 0, 0, 0⟩

instance : Inhabited Position := ⟨first⟩

end Position

/-- A text together with the name that messages call it by. -/
structure Source where
  content : String
  name : String
  deriving DecidableEq

/-- What a source without a name of its own is called. -/
def Source.defaultName : String := "<input>"

def Source.chars (s : Source) : List Char := s.content.toList

/-- The part of a source from `start` up to, not including, `stop`. -/
structure Origin where
  source : Source
  start : Position
  stop : Position
  deriving DecidableEq

namespace Origin

/-- The text that an origin covers; empty if its offsets cut nothing out. -/
def text (o : Origin) : String :=
  String.ofList ((Text.slice o.start.offset o.stop.offset o.source.chars).getD [])

/-- The place an origin starts at, as messages write it: both counts from one. -/
def label (o : Origin) : String :=
  s!"{o.source.name}:{o.start.line + 1}:{o.start.column + 1}"

end Origin

/-- A position reached by reading, with the memory of a carriage return just read:
a line feed right after it belongs to the same line end. -/
structure Place where
  position : Position
  afterReturn : Bool
  deriving DecidableEq

namespace Place

/-- The place before the first character. -/
def first : Place := ⟨.first, false⟩

/-- The place after one more character. -/
def step (p : Place) (c : Char) : Place :=
  let offset := p.position.offset + c.utf8Size
  if c = '\n' then
    if p.afterReturn then ⟨{ p.position with offset }, false⟩
    else ⟨⟨p.position.line + 1, 0, 0, offset⟩, false⟩
  else if c = '\r' then ⟨⟨p.position.line + 1, 0, 0, offset⟩, true⟩
  else
    ⟨⟨p.position.line, p.position.column + 1, p.position.column16 + Text.units16 c, offset⟩, false⟩

/-- The place after some more characters. -/
def pass (p : Place) (cs : List Char) : Place := cs.foldl step p

@[simp] theorem pass_nil (p : Place) : p.pass [] = p := rfl

@[simp] theorem pass_cons (p : Place) (c : Char) (cs : List Char) :
    p.pass (c :: cs) = (p.step c).pass cs := rfl

@[simp] theorem pass_append (p : Place) (a b : List Char) :
    p.pass (a ++ b) = (p.pass a).pass b := List.foldl_append

@[simp] theorem step_offset (p : Place) (c : Char) :
    (p.step c).position.offset = p.position.offset + c.utf8Size := by
  unfold step; dsimp only; split
  · split <;> rfl
  · split <;> rfl

/-- The place after some characters of one line, which are counted at once. -/
def skip (p : Place) (cs : List Char) : Place :=
  ⟨⟨p.position.line, p.position.column + cs.length,
    p.position.column16 + Text.length16 cs, p.position.offset + Text.byteLength cs⟩, false⟩

theorem step_of_not_terminator (p : Place) {c : Char} (h : Text.isTerminator c = false) :
    p.step c = p.skip [c] := by
  simp only [Text.isTerminator, Bool.or_eq_false_iff, beq_eq_false_iff_ne] at h
  simp [step, skip, h.1, h.2]

/-- Counted at once, the characters of a line lead where they lead one by one. -/
theorem skip_eq_pass (p : Place) {cs : List Char} (ne : cs ≠ [])
    (h : ∀ c ∈ cs, Text.isTerminator c = false) : p.skip cs = p.pass cs := by
  induction cs generalizing p with
  | nil => exact absurd rfl ne
  | cons c cs ih =>
    rw [List.forall_mem_cons] at h
    rw [pass_cons, step_of_not_terminator p h.1]
    cases cs with
    | nil => rfl
    | cons d ds =>
      rw [← ih _ (by simp) h.2]
      simp [skip, Nat.add_assoc, Nat.add_comm 1]

/-- Offsets count the bytes read. -/
@[simp] theorem pass_offset (p : Place) (cs : List Char) :
    (p.pass cs).position.offset = p.position.offset + Text.byteLength cs := by
  induction cs generalizing p with
  | nil => rfl
  | cons c cs ih => simp [ih, Nat.add_assoc]

end Place

/-- The position at the end of a text. -/
def Position.after (cs : List Char) : Position := (Place.first.pass cs).position

example : Position.after "a\r\nb\n\r🎉é".toList = ⟨3, 2, 3, 12⟩ := by decide

end GraphQL
