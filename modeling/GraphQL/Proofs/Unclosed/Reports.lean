import GraphQL.Proofs.Unclosed.Definitions

/-! What the reports of errors say of marks that are open where the input ends: there is a note for each
of them, the innermost first, but for the brackets of list types. -/
namespace GraphQL

/-- The ways into the parser. -/
inductive EntryPoint where
  | document
  | value
  | constValue
  | typeRef
  deriving DecidableEq

/-- An entry point refuses a text. -/
def EntryPoint.Refuses (entry : EntryPoint) (s : Source) (e : SyntaxError) : Prop :=
  match entry with
  | document => s.parseDocument = .error e
  | value => s.parseValue = .error e
  | constValue => s.parseConstValue = .error e
  | typeRef => s.parseTypeRef = .error e

/-- The tokens up to the end of the input are those of whole definitions, which have been read, and those
of the definition that a document fails in. Values and types have no parts. -/
inductive EntryPoint.Parts (s : Source) (e : SyntaxError) :
    EntryPoint → List Token → List Token → Topic → Prop
  | document {c c₀ : Cursor} {done rest : List Token} (opens : c.Opens s)
    (row : Parser.Row nestingLimit c done c₀)
    (failed : Parser.definition (m := Parser) nestingLimit c₀ = .error e) :
    Parts s e .document done rest (.ofDefinition (kinds rest))
  | value (rest : List Token) : Parts s e .value [] rest .value
  | constValue (rest : List Token) : Parts s e .constValue [] rest .value
  | typeRef (rest : List Token) : Parts s e .typeRef [] rest .type

/-- The note about a mark that is open. -/
def OpenMark.note (s : Source) (o : OpenMark) : Note :=
  ⟨.general, s!"unclosed `{o.mark.text}` opened here", some (o.token.origin s)⟩

theorem Cursor.Opens.silent {c : Cursor} {s : Source} (opens : c.Opens s) : c.Silent where
  toSteady := opens.steady
  silent e cut := (Scanner.start s).tokens_unclosed e (opens.failure ▸ cut)

namespace SyntaxError

variable {e : SyntaxError} {s : Source}

/-- Errors at the end of the input say nothing but which marks are open. -/
theorem notes_end {opened : List OpenMark} (ends : e.violation.IsEnd)
    (told : e.unclosed = toldOf s opened) :
    e.diagnostic.notes.filter (·.origin.isSome) =
      (opened.filter (·.content ≠ .type)).map (·.note s) := by
  obtain ⟨expected, violation⟩ := ends
  have notes : e.diagnostic.notes = (opened.filter (·.content ≠ .type)).map (·.note s) := by
    rw [diagnostic, violation, told, toldOf, List.map_map]
    rfl
  rw [notes, List.filter_eq_self]
  intro n listed
  obtain ⟨o, -, rfl⟩ := List.mem_map.mp listed
  rfl

theorem notes_other (nothing : e.unclosed = []) : ∀ n ∈ e.diagnostic.notes, n.origin = none := by
  intro n listed
  rw [diagnostic, nothing, List.map_nil, List.append_nil] at listed
  obtain ⟨_, -, rfl⟩ := List.mem_map.mp listed
  rfl

end SyntaxError

namespace Parser

variable {α : Type} {levels : Nat} {topic : Topic} {c c₀ : Cursor} {e : SyntaxError} {ts : List Token}
  {s : Source}

/-- A whole definition closes all marks that it opens. -/
theorem definition_closed {d : Definition} {c₁ : Cursor} (silent : c.Silent)
    (read : definition (m := Parser) (levels + 1) c = .ok (d, c₁)) :
    ∃ ts, Consumes c ts c₁ ∧ unclosed (kinds ts) = some [] := by
  have tracks : TracksDefinition (.ofDefinition (kinds c.pending)) c (definition (levels + 1)) :=
    definition_tracks silent
  rw [TracksDefinition, TracksFrom, read] at tracks
  cases tracks with
  | @ok _ _ ts r steps passed keeps =>
    have all := Progress.after_matches passed
    rw [keeps.1] at all
    exact ⟨ts, steps, all⟩

theorem definition_silent {d : Definition} {c₁ : Cursor} (silent : c.Silent)
    (read : definition (m := Parser) (levels + 1) c = .ok (d, c₁)) :
    ∃ ts, Consumes c ts c₁ ∧ c₁.Silent := by
  obtain ⟨ts, steps, -⟩ := definition_closed silent read
  exact ⟨ts, steps, steps.silent silent⟩

theorem Row.closed (row : Row (levels + 1) c ts c₀) (silent : c.Silent) :
    unclosed (kinds ts) = some [] := by
  induction row with
  | nil c => rfl
  | cons read steps later ih =>
    obtain ⟨us, steps', closed⟩ := definition_closed silent read
    obtain rfl := steps.unique steps'
    unfold unclosed at *
    rw [kinds, List.map_append, List.foldlM_append, closed]
    exact ih (steps.silent silent)

/-- The error of a parser that keeps track. -/
theorem TracksFrom.tells {p : Parser α} {r : Progress} {post : Progress → Prop}
    (tracks : TracksFrom topic c r post p) (failed : p c = .error e) : e.Tells topic c r := by
  rw [TracksFrom, failed] at tracks
  cases tracks with
  | error tells => exact tells

/-- Something that makes up the whole input. -/
theorem alone_tracks {p : Parser α} (h : Tracks ⟨topic, none⟩ Unmarked p Unmarked) :
    Tracks ⟨topic, none⟩ Unmarked (alone p) Unmarked :=
  h.bind fun _ => Tracks.expectEnd.bind fun _ => .pure _

end Parser

namespace EntryPoint

variable {entry : EntryPoint} {s : Source} {e : SyntaxError}

/-- Where errors come from: they are lexical, or come up in some part of the text, behind tokens that close
all marks that they open. -/
inductive Arises (entry : EntryPoint) (s : Source) (e : SyntaxError) : Prop
  | lexical (cut : s.tokens.failure = some e)
  | within {c c₀ : Cursor} {done : List Token} {topic : Topic} (opens : c.Opens s)
    (steps : Consumes c done c₀) (closed : unclosed (kinds done) = some [])
    (tells : e.Tells topic c₀ .start)
    (parts : ∀ rest d, Consumes c₀ rest d → d.current.kind = .endOfInput →
      entry.Parts s e done rest topic)

/-- An error in something that makes up the whole input. -/
theorem Arises.alone {α : Type} {p : Parser α} {topic : Topic}
    (tracks : Parser.Tracks ⟨topic, none⟩ Unmarked p Unmarked)
    (failed : Parser.run (Parser.alone p) s nestingLimit = .error e)
    (parts : ∀ rest, entry.Parts s e [] rest topic) : entry.Arises s e := by
  rcases Parser.run_failed failed with cut | ⟨c, opens, failed⟩
  · exact .lexical cut
  · have run := Parser.alone_tracks tracks opens.silent rfl Parser.unmarked_start
    exact .within opens (.refl c) rfl (run.tells failed) fun rest _ _ _ => parts rest

theorem Arises.document (failed : s.parseDocument = .error e) : document.Arises s e := by
  rcases Parser.run_failed failed with cut | ⟨c, opens, failed⟩
  · exact .lexical cut
  · obtain ⟨done, c₀, row, silent, failed⟩ := Parser.document_error
      (fun _ _ _ => Parser.definition_silent) opens.silent failed
    refine .within opens row.consumes (row.closed opens.silent)
      ((Parser.definition_tracks silent).tells failed) fun rest d steps last => ?_
    have topic : Topic.ofDefinition (kinds c₀.pending) = .ofDefinition (kinds rest) := by
      rw [steps.pending, kinds, List.map_append, Cursor.pending, List.map_cons, last]
      exact Topic.ofDefinition_end _ _
    rw [topic]
    exact .document opens row failed

theorem Refuses.arises (refused : entry.Refuses s e) : entry.Arises s e := by
  have values (position : Option ConstPosition) :
      Parser.Tracks ⟨.value, none⟩ Unmarked (Parser.value position nestingLimit) Unmarked :=
    (Parser.value_tracks position _ _).mono (fun _ unmarked => ⟨unmarked, rfl, rfl⟩) fun _ => id
  have types : Parser.Tracks ⟨.type, none⟩ Unmarked (Parser.typeRef nestingLimit) Unmarked :=
    (Parser.typeRef_tracks _ _).mono (fun _ _ => rfl) fun _ => id
  cases entry with
  | document => exact .document refused
  | value => exact .alone (values none) refused .value
  | constValue => exact .alone (values (some .constValue)) refused .constValue
  | typeRef => exact .alone types refused .typeRef

end EntryPoint

/-- Reports of errors at the end of the input have notes with places on the marks that are open there, the
innermost first, and on no others. The brackets of list types are left out. Other reports have no such
notes. -/
theorem unclosed_marks_noted {entry : EntryPoint} {s : Source} {e : SyntaxError}
    (refused : entry.Refuses s e) :
    (e.violation.label = "UnexpectedEof" → ∃ done rest topic r, s.Words (done ++ rest) ∧
      entry.Parts s e done rest topic ∧ Progress.start.after topic rest = some r ∧
      unclosed (kinds (done ++ rest)) = some (r.opened.map (·.mark)).reverse ∧
      e.diagnostic.notes.filter (·.origin.isSome) =
        (r.opened.filter (·.content ≠ .type)).map (·.note s)) ∧
    (e.violation.label ≠ "UnexpectedEof" → ∀ n ∈ e.diagnostic.notes, n.origin = none) := by
  simp only [← Violation.isEnd_iff, ne_eq]
  cases refused.arises with
  | lexical cut =>
    have lexical := (Scanner.start s).tokens_fault e cut
    have nothing := (Scanner.start s).tokens_unclosed e cut
    exact ⟨fun ends => absurd ends.isUnexpected lexical.not_isUnexpected,
      fun _ => SyntaxError.notes_other nothing⟩
  | @within c c₀ done topic opens steps closed tells parts =>
    refine ⟨fun ends => ?_, fun elsewhere => SyntaxError.notes_other (tells.elsewhere elsewhere)⟩
    obtain ⟨rest, d, before, inner, steps', last, passed, told⟩ := tells.atEnd ends
    rw [steps.source, opens.source] at told
    have opened : inner ++ Progress.start.opened = inner := List.append_nil inner
    rw [opened] at passed
    have brackets : unclosed (kinds (done ++ rest)) = some (inner.map (·.mark)).reverse := by
      have all := Progress.after_matches passed
      unfold unclosed at closed ⊢
      rw [kinds, List.map_append, List.foldlM_append, closed]
      exact all
    exact ⟨done, rest, topic, _, opens.words (steps.trans steps') last, parts rest d steps' last,
      passed, brackets, SyntaxError.notes_end ends told⟩

/-- Two brackets of list types are open where this text ends, and one of a value has been closed. -/
theorem unclosed_marks_noted_type :
    let s : Source := ⟨"\x7b a \x7d type A \x7b f(x: [Int] = [1], y: [[Int", "t"⟩
    ∃ e, s.parseDocument = .error e ∧ e.violation.label = "UnexpectedEof" ∧
      e.diagnostic.notes.map (·.message) = ["unclosed `(` opened here", "unclosed `\x7b` opened here"] ∧
      ∃ done rest topic r, s.Words (done ++ rest) ∧ EntryPoint.document.Parts s e done rest topic ∧
        Progress.start.after topic rest = some r ∧
        unclosed (kinds (done ++ rest)) = some (r.opened.map (·.mark)).reverse ∧
        e.diagnostic.notes.filter (·.origin.isSome) =
          (r.opened.filter (·.content ≠ .type)).map (·.note s) := by
  intro s
  obtain ⟨e, failed, ends, messages⟩ : ∃ e, s.parseDocument = .error e ∧
      e.violation.label = "UnexpectedEof" ∧ e.diagnostic.notes.map (·.message) =
        ["unclosed `(` opened here", "unclosed `\x7b` opened here"] :=
    ⟨_, by cbv, rfl, by decide⟩
  have refused : EntryPoint.document.Refuses s e := failed
  exact ⟨e, failed, ends, messages, (unclosed_marks_noted refused).1 ends⟩

end GraphQL
