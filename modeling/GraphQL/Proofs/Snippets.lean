import GraphQL.Proofs.Lists
import GraphQL.Proofs.Scanner.Spans
import GraphQL.Proofs.Text.Lines
import GraphQL.Proofs.Viable.Prefixes
import GraphQL.Proofs.Viable.Prompt

/-! Reports of errors, with the lines of the source that they are about: the line that a report quotes
for a place is the one that the place is on, and the marks below it are under the text that it covers.
There is a report unless one of the places is too far to the right. -/
namespace GraphQL

/-- A report shows a line for an origin, and so many marks below it, from the column on where the origin
starts. The number in front of the line is as wide as the margin of the marks. -/
def Origin.ShowsIn (o : Origin) (mark : Char) (line : List Char) (count : Nat) (report : String) : Prop :=
  ∃ before margin numbered after : String, (∀ c ∈ margin.toList, c = ' ') ∧
    numbered.length = margin.length ∧
    (∃ n, numbered = String.ofList (.replicate n ' ') ++ toString (o.start.line + 1)) ∧
    report = before ++ margin ++ " |\n" ++ numbered ++ " | " ++ String.ofList line ++ "\n" ++
      margin ++ " | " ++ String.ofList (.replicate o.start.column ' ' ++ .replicate count mark) ++ "\n" ++
      after

/-- An origin is a part of its source: both ends are at boundaries of characters, in this order. -/
structure Origin.IsPart (o : Origin) : Prop where
  ends : ∃ before middle after, o.source.chars = before ++ middle ++ after ∧
    o.start.offset = Text.byteLength before ∧ o.stop.offset = Text.byteLength (before ++ middle) ∧
    o.text = String.ofList middle
  ordered : o.start.offset ≤ o.stop.offset ∧ o.stop.offset ≤ Text.byteLength o.source.chars

/-- A report quotes the line that an origin starts on, and marks there what the origin covers. -/
def Origin.QuotedIn (o : Origin) (mark : Char) (report : String) : Prop :=
  ∃ line, (∃ ls, Text.IsLines o.source.chars ls ∧ ls[o.start.line]? = some line) ∧
    -- the start of the origin is on this very line
    (∃ lead rest, o.source.chars = lead ++ line ++ rest ∧
      (∀ c ∈ lead.getLast?, Text.isTerminator c = true) ∧
      (∀ c ∈ rest.head?, Text.isTerminator c = true) ∧
      o.start.offset = Text.byteLength (lead ++ line.take o.start.column)) ∧
    (o.start.line = o.stop.line → o.start.column ≤ o.stop.column ∧
      (line.drop o.start.column).take (o.stop.column - o.start.column) = o.text.toList) ∧
    o.ShowsIn mark line
      (if o.start.line = o.stop.line ∧ o.text ≠ "" then o.stop.column - o.start.column else 1) report

/-- A text is refused by some entry point. -/
inductive Source.Fails (s : Source) (e : SyntaxError) : Prop
  | document {limit : Nat} (h : s.documentWithin limit = .error e)
  | value {limit : Nat} (h : s.valueWithin limit = .error e)
  | constValue {limit : Nat} (h : s.constValueWithin limit = .error e)
  | typeRef {limit : Nat} (h : s.typeRefWithin limit = .error e)

/-- The origins that a report is about, each with the mark for it. -/
inductive Diagnostic.Cites (d : Diagnostic) : Origin → Char → Prop
  | here : d.Cites d.origin '^'
  | note {n : Note} {o : Origin} (listed : n ∈ d.notes) (placed : n.origin = some o) : d.Cites o '-'

/-- The origins that the report of an error is about. -/
abbrev SyntaxError.Cites (e : SyntaxError) : Origin → Char → Prop := e.diagnostic.Cites

/-! ### Where the origins are -/

section Places

variable {s : Source} {e : SyntaxError} {o : Origin} {mark : Char}

theorem Source.Fails.lies (h : s.Fails e) : s.tokens.failure = some e ∨
    ∃ c ts d, c.Opens s ∧ Consumes c ts d ∧ e.Lies ts d := by
  have found : s.tokens.failure = some e ∨ ¬ Lexeme.IsLexical e.violation ∧
      ∃ c ts d, c.Opens s ∧ Consumes c ts d ∧ e.Lies ts d := by
    cases h with
    | document h => exact Parser.run_error Parser.document_prompt h
    | value h => exact Parser.run_error (Parser.alone_prompt (Parser.value_prompt _ _)) h
    | constValue h => exact Parser.run_error (Parser.alone_prompt (Parser.value_prompt _ _)) h
    | typeRef h => exact Parser.run_error (Parser.alone_prompt (Parser.typeRef_prompt _)) h
  exact found.imp_right And.right

/-- An error among tokens is about a part of their source. -/
theorem SyntaxError.Lies.origin_cut {c d : Cursor} {ts : List Token} (h : e.Lies ts d) (opens : c.Opens s)
    (steps : Consumes c ts d) : e.origin.source = s ∧ e.origin.IsCut := by
  have source : d.source = s := steps.source.trans opens.source
  have tokens : s.tokens.tokens = ts ++ d.pending := by rw [← opens.pending, steps.pending]
  rcases Nat.eq_zero_or_pos e.violation.reach with none | reach
  · rw [h.ahead none, source]
    exact ⟨rfl, s.tokens_cut.1 _ (by simp [tokens, Cursor.pending])⟩
  · obtain ⟨us, vs, rfl, -, covering⟩ := h.behind reach
    rw [source] at covering
    exact Source.covering_cut tokens covering

theorem Source.Fails.origin_cut (h : s.Fails e) : e.origin.source = s ∧ e.origin.IsCut := by
  rcases h.lies with failure | ⟨c, ts, d, opens, steps, place⟩
  · exact s.tokens_cut.2 e failure
  · exact place.origin_cut opens steps

/-- Marks that an error tells of are parts of the source, too. -/
theorem Source.Fails.unclosed_cut (h : s.Fails e) :
    ∀ x ∈ e.unclosed, x.2.source = s ∧ x.2.IsCut := by
  intro x hx
  rcases h.lies with failure | ⟨c, ts, d, opens, steps, place⟩
  · simp [(Scanner.start s).tokens_unclosed e failure] at hx
  · obtain ⟨t, ht, origin⟩ := place.unclosed x hx
    rw [origin, steps.source, opens.source]
    exact ⟨rfl, s.tokens_cut.1 t (by rw [← opens.pending, steps.pending]; exact List.mem_append_left _ ht)⟩

theorem Source.Fails.cites_cut (h : s.Fails e) (cites : e.Cites o mark) : o.source = s ∧ o.IsCut := by
  cases cites with
  | here => exact h.origin_cut
  | note listed placed =>
    rcases List.mem_append.mp listed with listed | listed
    · obtain ⟨_, -, rfl⟩ := List.mem_map.mp listed
      cases placed
    · obtain ⟨x, hx, rfl⟩ := List.mem_map.mp listed
      cases placed
      exact h.unclosed_cut x hx

end Places

/-! ### What is shown of them -/

namespace Diagnostic

variable {d : Diagnostic} {o : Origin} {mark : Char}

/-- If there are snippets for all that a report is about, there is a report, and they are in it. -/
theorem render_shows (shown : ∀ o mark, d.Cites o mark → ∃ lines, o.snippet mark = .ok lines) :
    ∃ report, d.render = .ok report ∧ ∀ o mark lines, d.Cites o mark → o.snippet mark = .ok lines →
      ∃ before after, report = before ++ lines ++ after := by
  obtain ⟨own, own_lines⟩ := shown _ _ .here
  have noted : ∀ n ∈ d.notes, ∃ text, renderNote n = .ok text := fun n listed => by
    unfold renderNote
    cases placed : n.origin with
    | none => exact ⟨_, rfl⟩
    | some o =>
      obtain ⟨lines, found⟩ := shown o '-' (.note listed placed)
      exact ⟨_, by simp only [found]; rfl⟩
  obtain ⟨texts, rendered⟩ : ∃ texts : List String, d.notes.map renderNote = texts.map .ok := by
    choose! text same using noted
    exact ⟨d.notes.map text, by simpa using fun n listed => same n listed⟩
  refine ⟨_, by rw [render, own_lines, mapM_eq_ok_iff.mpr rendered]; rfl, ?_⟩
  intro o mark lines cites found
  cases cites with
  | here =>
    rw [own_lines, Except.ok.injEq] at found
    exact ⟨_, _, by rw [found]⟩
  | @note n _ listed placed =>
    have written : Except.ok (s!"   = {n.kind.label}: {n.message}\n" ++ lines) ∈
        texts.map (Except.ok (ε := FormatFault)) := by
      rw [← rendered]
      exact List.mem_map.mpr ⟨n, listed, by rw [renderNote, placed]; simp only [found]; rfl⟩
    obtain ⟨text, mem, same⟩ := List.mem_map.mp written
    rw [Except.ok.injEq] at same
    obtain ⟨ns, ms, split⟩ := List.append_of_mem mem
    rw [split, String.join_append, String.join_cons, same]
    simp only [← String.append_assoc]
    exact ⟨_, _, rfl⟩

/-- If a snippet cannot be formatted, the report cannot either. -/
theorem render_fails (cites : d.Cites o mark) (broken : o.snippet mark = .error .width) :
    d.render = .error .width := by
  have fault : ∀ f : FormatFault, f = .width := by rintro ⟨⟩; rfl
  cases own : d.origin.snippet '^' with
  | error f =>
    rw [render, own, fault f]
    rfl
  | ok lines =>
    cases cites with
    | here =>
      rw [own] at broken
      cases broken
    | @note n _ listed placed =>
      cases notes : d.notes.mapM renderNote with
      | error f =>
        rw [render, own, notes, fault f]
        rfl
      | ok texts =>
        have failed : renderNote n = .error .width := by
          rw [renderNote, placed]
          simp only [broken]
          rfl
        have mem := List.mem_map_of_mem (f := renderNote) listed
        rw [mapM_eq_ok_iff.mp notes, failed] at mem
        obtain ⟨_, -, ⟨⟩⟩ := List.mem_map.mp mem

end Diagnostic

namespace Origin

variable {o : Origin} {mark : Char} {line before middle after : List Char}

/-- A snippet is two lines, which start with margins of the same width. -/
theorem snippet_shows (mark : Char) (found : Text.line? o.start.line o.source.chars = some line)
    (fits : o.start.column ≤ widestField) : ∃ lines, o.snippet mark = .ok lines ∧
      ∀ {report lead rest : String}, report = lead ++ lines ++ rest →
        o.ShowsIn mark line o.markedColumns report := by
  let number := toString (o.start.line + 1)
  let width := max number.length 2
  let margin := String.ofList (.replicate width ' ')
  let numbered := String.ofList (.replicate (width - number.length) ' ') ++ number
  have parts : o.snippet mark =
      .ok ((margin ++ " |\n" ++ numbered ++ " | " ++ String.ofList line ++ "\n") ++
        (margin ++ " | " ++ String.ofList (.replicate o.start.column ' ') ++
          String.ofList (.replicate o.markedColumns mark) ++ "\n")) := by
    rw [snippet, found, indent, if_pos fits]
    rfl
  refine ⟨_, parts, fun {report lead rest} inside => ⟨lead, margin, numbered, rest, ?_, ?_, ⟨_, rfl⟩, ?_⟩⟩
  · simp [margin]
  · simp [margin, numbered, width]
  · rw [inside]
    simp only [String.append_assoc, String.ofList_append]

/-- There is no field of blanks up to a place that is far to the right. -/
theorem snippet_fails (found : Text.line? o.start.line o.source.chars = some line)
    (far : widestField < o.start.column) : o.snippet mark = .error .width := by
  rw [snippet, found, indent, if_neg (Nat.not_le.mpr far)]
  rfl

namespace Cuts

/-- The line at the number that an origin starts at is the one around its start. -/
theorem line? (h : o.Cuts before middle after) : Text.line? o.start.line o.source.chars =
    some (Text.lastLine before ++ (middle ++ after).takeWhile (!Text.isTerminator ·)) := by
  rw [h.start, h.chars, List.append_assoc]
  exact Text.line?_breaks fun _ => h.begins

theorem text (h : o.Cuts before middle after) : o.text = String.ofList middle := by
  have cut := Text.slice_middle before middle after
  rw [Origin.text, h.start, h.stop, h.chars]
  simp only [Position.ending, Text.byteLength_append]
  rw [cut, Option.getD_some]

/-- An origin that ends on the line on which it starts covers a part of this line. -/
theorem plain (h : o.Cuts before middle after) (one_line : o.start.line = o.stop.line) :
    (∀ c ∈ middle, Text.isTerminator c = false) ∧
      o.stop.column = o.start.column + middle.length := by
  have seam : before.getLast? = some '\r' → middle.head? ≠ some '\n' := by
    intro _ feed
    exact h.begins (by rw [List.head?_append, feed]; rfl)
  rw [h.start, h.stop] at one_line ⊢
  simp only [Position.ending, Text.breaks_append seam] at one_line ⊢
  have plain := Text.plain_of_breaks (a := middle) (by omega)
  rw [Text.lastLine_append_plain plain, List.length_append]
  exact ⟨plain, rfl⟩

theorem markedColumns (h : o.Cuts before middle after) : o.markedColumns =
    if o.start.line = o.stop.line ∧ o.text ≠ "" then o.stop.column - o.start.column else 1 := by
  rw [Origin.markedColumns, h.text]
  by_cases one_line : o.start.line = o.stop.line
  · obtain ⟨-, stop⟩ := h.plain one_line
    have covers : o.start.column < o.stop.column ↔ String.ofList middle ≠ "" := by
      rw [stop, ne_eq, String.ofList_eq_empty_iff, ← ne_eq, ← List.length_pos_iff]
      omega
    simp only [one_line, true_and, covers]
  · rw [if_neg fun both => one_line both.1.symm, if_neg fun both => one_line both.1]

/-- No place is further to the right than its source is long. -/
theorem column_le (h : o.Cuts before middle after) : o.start.column ≤ o.source.chars.length := by
  have suffix : (Text.lastLine before).length ≤ before.length := (List.rtakeWhile_suffix _ _).length_le
  rw [h.start, h.chars, List.length_append, List.length_append]
  exact suffix.trans (by omega)

theorem isPart (h : o.Cuts before middle after) : o.IsPart := by
  constructor
  case ends =>
    refine ⟨before, middle, after, h.chars, ?_, ?_, h.text⟩
    · rw [h.start]
      rfl
    · rw [h.stop]
      rfl
  case ordered =>
    rw [h.start, h.stop, h.chars]
    simp only [Position.ending, Text.byteLength_append]
    omega

/-- What is shown of an origin is the line that it starts on, with marks under what it covers. -/
theorem quotedIn (h : o.Cuts before middle after) {report : String}
    (shown : ∀ line, Text.line? o.start.line o.source.chars = some line →
      o.ShowsIn mark line o.markedColumns report) : o.QuotedIn mark report := by
  have column : o.start.column = (Text.lastLine before).length := by rw [h.start]; rfl
  obtain ⟨lead, split, ends⟩ := Text.append_lastLine before
  refine ⟨_, ⟨_, Text.isLines_lines _, h.line?⟩, ?_, fun one_line => ?_, ?_⟩
  · refine ⟨lead, (middle ++ after).dropWhile (!Text.isTerminator ·), ?_, ends, ?_, ?_⟩
    · rw [← List.append_assoc, ← split, List.append_assoc, List.takeWhile_append_dropWhile, h.chars,
        List.append_assoc]
    · simpa using Lexeme.stops_dropWhile (!Text.isTerminator ·) (middle ++ after)
    · rw [column, List.take_left, ← split, h.start]
      rfl
  · obtain ⟨plain, stop⟩ := h.plain one_line
    refine ⟨by omega, ?_⟩
    have inside : ∀ c ∈ middle, (!Text.isTerminator c) = true := by simpa using plain
    rw [column, List.drop_left, stop, column, Nat.add_sub_cancel_left, List.takeWhile_append_of_pos inside,
      List.take_left, h.text, String.toList_ofList]
  · rw [← h.markedColumns]
    exact shown _ h.line?

end Cuts
end Origin

section Reports

variable {s : Source} {e : SyntaxError} {o : Origin} {mark : Char}

/-- A report quotes all that it is about, if no place in it is too far to the right. -/
theorem Source.Fails.reported (failed : s.Fails e)
    (near : ∀ o mark, e.Cites o mark → o.start.column ≤ widestField) :
    ∃ report, e.diagnostic.render = .ok report ∧ ∀ o mark, e.Cites o mark → o.QuotedIn mark report := by
  have snippets : ∀ o mark, e.Cites o mark → ∃ lines, o.snippet mark = .ok lines :=
    fun o mark cites => by
      obtain ⟨-, before, middle, after, cuts⟩ := failed.cites_cut cites
      obtain ⟨lines, found, -⟩ := Origin.snippet_shows mark cuts.line? (near o mark cites)
      exact ⟨lines, found⟩
  obtain ⟨report, rendered, shown⟩ := Diagnostic.render_shows snippets
  refine ⟨report, rendered, fun o mark cites => ?_⟩
  obtain ⟨-, before, middle, after, cuts⟩ := failed.cites_cut cites
  refine cuts.quotedIn fun line at_line => ?_
  obtain ⟨lines, found, shows⟩ := Origin.snippet_shows mark at_line (near o mark cites)
  obtain ⟨lead, rest, inside⟩ := shown o mark lines cites found
  exact shows inside

/-- There is no report if a place in it is too far to the right. -/
theorem Source.Fails.unreported (failed : s.Fails e) (cites : e.Cites o mark)
    (far : widestField < o.start.column) : e.diagnostic.render = .error .width := by
  obtain ⟨-, before, middle, after, cuts⟩ := failed.cites_cut cites
  exact Diagnostic.render_fails cites (Origin.snippet_fails cuts.line? far)

/-- Texts that are no longer than fields are wide have reports for all their errors. -/
theorem Source.Fails.near (failed : s.Fails e) (short : s.chars.length ≤ widestField)
    (cites : e.Cites o mark) : o.start.column ≤ widestField := by
  obtain ⟨rfl, before, middle, after, cuts⟩ := failed.cites_cut cites
  exact cuts.column_le.trans short

/-- So many blanks, and then a character that starts no token. -/
def Source.farTilde (n : Nat) : Source := ⟨String.ofList (.replicate n ' ' ++ ['~']), defaultName⟩

theorem Lexeme.splitIgnored_tilde (n : Nat) :
    splitIgnored false (.replicate n ' ' ++ ['~']) = (.replicate n ' ', ['~']) := by
  induction n with
  | zero => rfl
  | succ n ih =>
    rw [List.replicate_succ, List.cons_append, splitIgnored, ih]
    rfl

/-- The error is behind the blanks. -/
theorem Source.tokens_farTilde (n : Nat) :
    ∃ e, (farTilde n).tokens = ⟨[], some e⟩ ∧ e.origin.start.column = n := by
  have chars : (farTilde n).chars = .replicate n ' ' ++ ['~'] := String.toList_ofList
  have plain : ∀ c ∈ List.replicate n ' ', Text.isTerminator c = false := fun c inside => by
    rw [List.eq_of_mem_replicate inside]
    rfl
  have found : ∃ e after, (Scanner.start (farTilde n)).next = (.error e, after) ∧
      e.origin.start = .ending (.replicate n ' ') := by
    rw [Scanner.next, Scanner.skipIgnored_eq, Scanner.start, chars, Lexeme.splitIgnored_tilde]
    simp only [Scanner.moveOver, Scanner.locate, Place.pass_first]
    exact ⟨_, _, rfl, rfl⟩
  obtain ⟨e, after, found, start⟩ := found
  refine ⟨e, Scanner.tokens_cut_off found, ?_⟩
  rw [start, Position.ending, Text.lastLine_plain plain, List.length_replicate]

theorem Source.farTilde_unreported {n : Nat} (far : widestField < n) :
    ∃ e, (farTilde n).parseDocument = .error e ∧ e.diagnostic.render = .error .width := by
  obtain ⟨e, tokens, column⟩ := tokens_farTilde n
  have refused : (farTilde n).documentWithin nestingLimit = .error e := by
    rw [documentWithin, Parser.run, Parser.start, tokens]
    rfl
  refine ⟨e, refused, Source.Fails.unreported (.document refused) .here ?_⟩
  change widestField < e.origin.start.column
  rwa [column]

end Reports

/-- All that a syntax error is about, its own place and those of the marks that were left open, is a part
of the text. If no such place is further to the right than a field is wide, there is a report, which
quotes the lines of these places and marks in them what the origins cover. This is so at the end of a
text, too, and whichever line ends it has. Otherwise there is no report. -/
theorem errors_quoted {s : Source} {e : SyntaxError} (failed : s.Fails e) :
    (∀ o mark, e.Cites o mark → o.source = s ∧ o.IsPart) ∧
      ((∀ o mark, e.Cites o mark → o.start.column ≤ widestField) → ∃ report,
        e.diagnostic.render = .ok report ∧ ∀ o mark, e.Cites o mark → o.QuotedIn mark report) ∧
      ((∃ o mark, e.Cites o mark ∧ widestField < o.start.column) →
        e.diagnostic.render = .error .width) := by
  refine ⟨fun o mark cites => ?_, failed.reported, fun ⟨o, mark, cites, far⟩ => failed.unreported cites far⟩
  obtain ⟨source, before, middle, after, cuts⟩ := failed.cites_cut cites
  exact ⟨source, cuts.isPart⟩

/-- The end of a text behind its last line break, where two marks are still open. -/
theorem errors_quoted_at_end : let s : Source := ⟨"\x7b a\n(\r\n", "t"⟩
    ∃ e report, s.Fails e ∧ e.origin.start = ⟨2, 0, 0, 7⟩ ∧ e.unclosed.length = 2 ∧
      e.diagnostic.render = .ok report ∧
      ∀ o mark, e.Cites o mark → o.source = s ∧ o.IsPart ∧ o.QuotedIn mark report := by
  intro s
  have told : (match s.documentWithin nestingLimit with
      | .error e => some (e.origin.start, e.unclosed.length)
      | .ok _ => none) = some (⟨2, 0, 0, 7⟩, 2) := by decide +kernel
  obtain ⟨e, refused⟩ : ∃ e, s.documentWithin nestingLimit = .error e := by
    cases read : s.documentWithin nestingLimit with
    | error e => exact ⟨e, rfl⟩
    | ok d => simp [read] at told
  obtain ⟨place, marks⟩ : e.origin.start = ⟨2, 0, 0, 7⟩ ∧ e.unclosed.length = 2 := by
    simpa [refused] using told
  have failed : s.Fails e := .document refused
  obtain ⟨parts, reported, -⟩ := errors_quoted failed
  obtain ⟨report, rendered, quoted⟩ := reported fun o mark => failed.near (by decide)
  exact ⟨e, report, failed, place, marks, rendered, fun o mark cites =>
    ⟨(parts o mark cites).1, (parts o mark cites).2, quoted o mark cites⟩⟩

/-- An error far to the right, which has no report. -/
theorem errors_unquoted_far_right : ∃ e, (Source.farTilde 65536).Fails e ∧
    ¬∃ report, e.diagnostic.render = .ok report := by
  obtain ⟨e, refused, broken⟩ := Source.farTilde_unreported (n := 65536) (by decide)
  refine ⟨e, .document refused, fun ⟨report, rendered⟩ => ?_⟩
  rw [broken] at rendered
  cases rendered

end GraphQL
