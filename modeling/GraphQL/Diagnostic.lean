import GraphQL.Source

/-! Diagnostics: messages about a place in a source, and how they are shown with the lines they are
about. -/
namespace GraphQL

/-- The role of a note. -/
inductive NoteKind where
  | general
  | help
  | spec
  deriving DecidableEq

def NoteKind.label : NoteKind → String
  | .general => "note"
  | .help => "help"
  | .spec => "spec"

/-- A remark that accompanies a message, at a place of its own or without one. -/
structure Note where
  kind : NoteKind
  message : String
  origin : Option Origin
  deriving DecidableEq

/-- A message about a place, with notes. -/
structure Diagnostic where
  message : String
  origin : Origin
  notes : List Note
  deriving DecidableEq

/-- Why a report cannot be written. -/
inductive FormatFault where
  /-- A field wider than fields can be. -/
  | width
  deriving DecidableEq

def FormatFault.message : FormatFault → String
  | .width => "Formatting argument out of range"

/-- How wide a field of a report can be: a width has sixteen bits. -/
def widestField : Nat := 65535

namespace Origin

/-- As many blanks as are asked for. -/
private def blanks (n : Nat) : String := String.ofList (List.replicate n ' ')

/-- A field of blanks up to the column where an origin starts. -/
def indent (o : Origin) : Except FormatFault String :=
  if o.start.column ≤ widestField then .ok (blanks o.start.column) else .error .width

/-- How many columns to mark: those that the origin covers, one if it is empty or spans lines. -/
def markedColumns (o : Origin) : Nat :=
  if o.stop.line = o.start.line ∧ o.start.column < o.stop.column then
    o.stop.column - o.start.column
  else 1

/-- The line that an origin starts on, with its number, above a row of marks; nothing if the source
has no such line. The marks need a field in front of them. -/
def snippet (o : Origin) (mark : Char) : Except FormatFault String :=
  match Text.line? o.start.line o.source.chars with
  | none => .ok ""
  | some line => do
    let number := toString (o.start.line + 1)
    let width := max number.length 2
    let gutter := blanks width
    let numbered := blanks (width - number.length) ++ number
    let marks := String.ofList (List.replicate o.markedColumns mark)
    let indent ← o.indent
    return s!"{gutter} |\n{numbered} | {String.ofList line}\n" ++ s!"{gutter} | {indent}{marks}\n"

end Origin

namespace Diagnostic

/-- The message on one line, after its place. -/
def oneLine (d : Diagnostic) : String := s!"{d.origin.label}: error: {d.message}"

/-- A note, with its lines of source if it has a place. -/
def renderNote (n : Note) : Except FormatFault String := do
  let lines ← match n.origin with
    | some o => o.snippet '-'
    | none => .ok ""
  return s!"   = {n.kind.label}: {n.message}\n" ++ lines

/-- The message with its lines of source and all notes. -/
def render (d : Diagnostic) : Except FormatFault String := do
  let lines ← d.origin.snippet '^'
  let notes ← d.notes.mapM renderNote
  return s!"error: {d.message}\n  --> {d.origin.label}\n" ++ lines ++ String.join notes

end Diagnostic
end GraphQL
