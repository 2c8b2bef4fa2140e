import GraphQL.Proofs.Text.BlockValue
import GraphQL.Parser

/-! Writing block strings: a text of lines is written with the same indentation before each of them
and any line ends behind them, and is read back as it was. -/
namespace GraphQL

namespace Text
open Lexical

variable {line indent opening body text rest : List Char} {ls : List (List Char)}

/-- Three quotes in a row get a backslash before them, from left to right. -/
def escapeQuotes : List Char → List Char
  | '"' :: '"' :: '"' :: cs => '\\' :: '"' :: '"' :: '"' :: escapeQuotes cs
  | c :: cs => c :: escapeQuotes cs
  | [] => []

/-- A line with what is written behind it. -/
abbrev EndedLine : Type := List Char × List Char

/-- Rows, each with some indentation before it. -/
def blockRows (indent : List Char) (rows : List EndedLine) : List Char :=
  rows.flatMap fun (line, ending) => indent ++ escapeQuotes line ++ ending

/-- A block string of some rows that start on a line of their own. -/
def blockText (indent opening : List Char) (rows : List EndedLine) : List Char :=
  tripleQuote ++ (opening ++ blockRows indent rows) ++ tripleQuote

/-- No two line ends meet as one: a carriage return and then a line feed, with nothing between them. -/
def EndsApart (indent : List Char) : List Char → List EndedLine → Prop
  | _, [] => True
  | before, (line, ending) :: rows =>
    (before = ['\r'] → ending = ['\n'] → indent ++ line ≠ []) ∧ EndsApart indent ending rows

/-! ### What is read -/

/-- Characters that a scanner takes for those of a block string, and what they stand for. -/
def StandsFor (body text : List Char) : Prop :=
  BlockChars (fun c => Lexeme.isBarred c = false) body ∧ Unescaped body text

/-- A quote in front of escaped characters is a quote of theirs, if none follow them. -/
theorem quote_escapeQuotes {cs : List Char} (stops : ∀ c ∈ rest.head?, c ≠ '"')
    (same : escapeQuotes line ++ rest = '"' :: cs) :
    ∃ later, line = '"' :: later ∧ cs = escapeQuotes later ++ rest := by
  unfold escapeQuotes at same
  split at same
  · cases same
  · cases same
    exact ⟨_, rfl, rfl⟩
  · rw [List.nil_append] at same
    exact absurd rfl (stops '"' (by simp [same]))

theorem StandsFor.plain {cs : List Char} (h : StandsFor rest text)
    (inside : ∀ c ∈ cs, c ≠ '"' ∧ c ≠ '\\' ∧ Lexeme.isBarred c = false) :
    StandsFor (cs ++ rest) (cs ++ text) := by
  induction cs with
  | nil => exact h
  | cons c cs ih =>
    obtain ⟨⟨quote, escape, allowed⟩, later⟩ := List.forall_mem_cons.mp inside
    obtain ⟨chars, unescaped⟩ := ih later
    have opens : ¬ tripleQuote <+: c :: (cs ++ rest ++ tripleQuote) := fun ⟨_, same⟩ =>
      quote (List.cons.inj same).1.symm
    have escapes : ¬ '\\' :: tripleQuote <+: c :: (cs ++ rest ++ tripleQuote) := fun ⟨_, same⟩ =>
      escape (List.cons.inj same).1.symm
    exact ⟨.plain allowed opens escapes chars, .plain escapes unescaped⟩

/-- Escaped characters stand for what they were before. -/
theorem StandsFor.escapeQuotes (h : StandsFor rest text)
    (stops : ∀ c ∈ (rest ++ tripleQuote).head?, c ≠ '"')
    (allowed : ∀ c ∈ line, Lexeme.isBarred c = false) :
    StandsFor (escapeQuotes line ++ rest) (line ++ text) := by
  fun_induction Text.escapeQuotes line with
  | case1 cs ih =>
    obtain ⟨chars, unescaped⟩ := ih fun c hc => allowed c (by simp [hc])
    exact ⟨.escaped chars, .escaped unescaped⟩
  | case2 c cs no_quotes ih =>
    rw [List.forall_mem_cons] at allowed
    obtain ⟨chars, unescaped⟩ := ih allowed.2
    have opens : ¬ tripleQuote <+: c :: (Text.escapeQuotes cs ++ rest ++ tripleQuote) := by
      rintro ⟨later, same⟩
      obtain ⟨quote, same⟩ := List.cons.inj same
      rw [List.append_assoc] at same
      obtain ⟨one, rfl, same'⟩ := quote_escapeQuotes stops same.symm
      obtain ⟨two, rfl, -⟩ := quote_escapeQuotes stops same'.symm
      exact no_quotes two quote.symm rfl
    have escapes : ¬ '\\' :: tripleQuote <+: c :: (Text.escapeQuotes cs ++ rest ++ tripleQuote) := by
      rintro ⟨later, same⟩
      have same := (List.cons.inj same).2
      rw [List.append_assoc] at same
      obtain ⟨one, rfl, same'⟩ := quote_escapeQuotes stops same.symm
      obtain ⟨two, rfl, same''⟩ := quote_escapeQuotes stops same'.symm
      obtain ⟨three, rfl, -⟩ := quote_escapeQuotes stops same''.symm
      -- Three quotes in a row do not start with a quote when they are escaped.
      cases (List.cons.inj same).1
    exact ⟨.plain allowed.1 opens escapes chars, .plain escapes unescaped⟩
  | case3 => exact h

/-- Line ends are characters like others between the quotes. -/
theorem StandsFor.ending (h : StandsFor rest text) {ending : List Char}
    (listed : ending ∈ lineEnds) : StandsFor (ending ++ rest) (ending ++ text) := by
  refine h.plain ?_
  simp only [lineEnds, List.mem_cons, List.not_mem_nil, or_false] at listed
  rcases listed with rfl | rfl | rfl <;> simp [Lexeme.isBarred]

theorem StandsFor.indentation (h : StandsFor rest text) (blank : IsIndentation indent) :
    StandsFor (indent ++ rest) (indent ++ text) := by
  refine h.plain fun c hc => ?_
  rcases List.mem_pair.mp (blank c hc) with rfl | rfl <;> decide

/-- Rows without what is written for their quotes. -/
def plainRows (indent : List Char) (rows : List EndedLine) : List Char :=
  rows.flatMap fun (line, ending) => indent ++ line ++ ending

theorem StandsFor.rows {rows : List EndedLine} (blank : IsIndentation indent)
    (allowed : ∀ row ∈ rows, ∀ c ∈ row.1, Lexeme.isBarred c = false)
    (listed : ∀ row ∈ rows, row.2 ∈ lineEnds) :
    StandsFor (blockRows indent rows) (plainRows indent rows) := by
  induction rows with
  | nil => exact ⟨.nil, .nil⟩
  | cons row rows ih =>
    obtain ⟨line, ending⟩ := row
    rw [List.forall_mem_cons] at allowed listed
    have later := (ih allowed.2 listed.2).ending listed.1
    have stops : ∀ c ∈ (ending ++ blockRows indent rows ++ tripleQuote).head?, c ≠ '"' := by
      have ends := listed.1
      simp only [lineEnds, List.mem_cons, List.not_mem_nil, or_false] at ends
      rcases ends with rfl | rfl | rfl <;> simp
    simpa [blockRows, plainRows] using (later.escapeQuotes stops allowed.1).indentation blank

/-! ### Its lines -/

/-- Rows whose ends stay apart are read as their lines, and an empty line after the last end. -/
theorem isLines_rows {rows : List EndedLine} (blank : IsIndentation indent)
    (plain : ∀ row ∈ rows, ∀ c ∈ row.1, isTerminator c = false)
    (listed : ∀ ending ∈ opening :: rows.map Prod.snd, ending ∈ lineEnds)
    (apart : EndsApart indent opening rows) (first : ∀ c ∈ line, isTerminator c = false) :
    IsLines (line ++ opening ++ plainRows indent rows)
      (line :: (rows.map (indent ++ ·.1) ++ [[]])) := by
  induction rows generalizing line opening with
  | nil =>
    have nothing : IsLines [] [[]] := .last (by simp)
    exact .next first (listed opening (by simp)) (by simp [plainRows]) nothing
  | cons row rows ih =>
    obtain ⟨inner, ending⟩ := row
    rw [List.forall_mem_cons] at plain
    rw [List.map_cons, List.forall_mem_cons] at listed
    have long : ∀ c ∈ indent ++ inner, isTerminator c = false := by
      rw [List.forall_mem_append]
      refine ⟨fun c hc => ?_, plain.1⟩
      rcases List.mem_pair.mp (blank c hc) with rfl | rfl <;> rfl
    have later := ih plain.2 listed.2 apart.2 long
    have text : plainRows indent ((inner, ending) :: rows) =
        indent ++ inner ++ ending ++ plainRows indent rows := by simp [plainRows]
    rw [text]
    refine .next first listed.1 (fun carriage feed => ?_) later
    -- A line feed right behind the carriage return is not in a line, so it is the next end.
    cases whole : indent ++ inner with
    | nil =>
      refine apart.1 carriage ?_ whole
      have ends := listed.2 ending (by simp)
      simp only [lineEnds, List.mem_cons, List.not_mem_nil, or_false] at ends
      rcases ends with rfl | rfl | rfl
      · rfl
      all_goals simp [whole] at feed
    | cons c cs =>
      rw [whole] at feed long
      cases feed
      cases long '\n' List.mem_cons_self

/-- Lines that all have some indentation before them share no more than that, if one of them has none
of its own. -/
theorem isCommonIndent_indented (blank : IsIndentation indent)
    (flush : ∃ line ∈ ls, ∃ c ∈ line.head?, c ∉ [' ', '\t']) :
    IsCommonIndent (ls.map (indent ++ ·) ++ [[]]) indent.length := by
  refine .inl ⟨?_, ?_⟩
  · obtain ⟨line, mem, c, first, visible⟩ := flush
    refine ⟨indent ++ line, by simp [mem], fun all => ?_, indent, line, rfl, blank, rfl, ?_⟩
    · exact visible (all c (List.mem_append_right _ (List.mem_of_head? first)))
    · intro d hd
      rw [Option.mem_unique hd first]
      exact visible
  · intro line mem visible m indented
    rw [List.mem_append, List.mem_map, List.mem_singleton] at mem
    rcases mem with ⟨own, -, rfl⟩ | rfl
    · rw [← indentedBy_iff.mp indented, Block.indent,
        List.takeWhile_append_of_pos fun c hc => isIndent_iff.mpr (blank c hc), List.length_append]
      exact Nat.le_add_right _ _
    · exact absurd (by simp [IsIndentation]) visible

/-- The rows of a text that is written have that text as their value. -/
theorem isBlockValue_rows {rows : List EndedLine} {value : List Char} (no_return : '\r' ∉ value)
    (allowed : ∀ c ∈ value, Lexeme.isBarred c = false) (parts : IsLines value (rows.map Prod.fst))
    (visible : EndsVisible (rows.map Prod.fst))
    (flush : ∃ line ∈ rows.map Prod.fst, ∃ c ∈ line.head?, c ∉ [' ', '\t'])
    (blank : IsIndentation indent)
    (listed : ∀ ending ∈ opening :: rows.map Prod.snd, ending ∈ lineEnds)
    (apart : EndsApart indent opening rows) :
    BlockChars (fun c => Lexeme.isBarred c = false) (opening ++ blockRows indent rows) ∧
      IsBlockValue (opening ++ blockRows indent rows) value := by
  have allowed' : ∀ row ∈ rows, ∀ c ∈ row.1, Lexeme.isBarred c = false := fun row mem c hc =>
    allowed c (parts.mem_of_mem row.1 (List.mem_map_of_mem mem) c hc)
  have ends : ∀ row ∈ rows, row.2 ∈ lineEnds := fun row mem =>
    listed row.2 (List.mem_cons_of_mem _ (List.mem_map_of_mem mem))
  have plain : ∀ row ∈ rows, ∀ c ∈ row.1, isTerminator c = false := fun row mem =>
    parts.plain row.1 (List.mem_map_of_mem mem)
  obtain ⟨chars, unescaped⟩ :=
    (StandsFor.rows blank allowed' ends).ending (listed opening List.mem_cons_self)
  have lines : IsLines ([] ++ opening ++ plainRows indent rows) ([] :: (rows.map (indent ++ ·.1) ++ [[]])) :=
    isLines_rows blank plain listed apart (by simp)
  refine ⟨chars, _, [], rows.map (indent ++ ·.1) ++ [[]], indent.length, rows.map Prod.fst, unescaped,
    lines, ?_, ⟨[[]], [[]], ?_, by simp [IsIndentation], visible⟩, parts.eq_intercalate no_return⟩
  · have common := isCommonIndent_indented blank flush
    rwa [List.map_map] at common
  · simp

end Text

open Text Lexical

/-- A block string that makes up a whole text is its one token. -/
theorem tokens_blockString {body : List Char} (name : String)
    (chars : BlockChars (fun c => Lexeme.isBarred c = false) body) :
    (⟨String.ofList (tripleQuote ++ body ++ tripleQuote), name⟩ : Source).tokens =
      ⟨[⟨.blockString (String.ofList (tripleQuote ++ body ++ tripleQuote)), .first,
          .ending (tripleQuote ++ body ++ tripleQuote)⟩,
        ⟨.endOfInput, .ending (tripleQuote ++ body ++ tripleQuote),
          .ending (tripleQuote ++ body ++ tripleQuote)⟩], none⟩ := by
  generalize whole : tripleQuote ++ body ++ tripleQuote = text
  have lexeme : IsLexeme (fun c => Lexeme.isBarred c = false)
      (.blockString (String.ofList text)) [] := .blockString chars (by simp [whole])
  simpa [TokenKind.written] using lexeme.tokens_alone name

/-- A string that makes up a whole text is parsed as its value. -/
theorem parseValue_blockString {s : Source} {literal value : String} {start stop : Position}
    (tokens : s.tokens = ⟨[⟨.blockString literal, start, stop⟩, ⟨.endOfInput, stop, stop⟩], none⟩)
    (cooked : (TokenKind.blockString literal).stringValue? = some (.ok value)) :
    s.parseValue = .ok (.string ⟨some ⟨s, start, stop⟩, value, true⟩) := by
  have leaf : (Parser.value none nestingLimit : Parser Value) =
      Parser.valueWith none (Parser.value none 63) := rfl
  simp [Source.parseValue, Source.valueWithin, Parser.run, Parser.alone, leaf, Parser.valueWith,
    Parser.leafValue, Parser.start, tokens, Parser.consume, Parser.peek, Parser.optionalString, cooked,
    Parser.originOf, Parser.expectEnd, Token.origin, bind, StateT.bind, Except.bind]
  rfl

/-- Text of lines is read back from a block string with any indentation and any line ends, as long as
no two line ends meet as one. -/
theorem block_string_round_trip {value name : String} {indent opening : List Char} {rows : List EndedLine}
    (no_return : '\r' ∉ value.toList) (allowed : ∀ c ∈ value.toList, Lexeme.isBarred c = false)
    (parts : IsLines value.toList (rows.map Prod.fst)) (visible : EndsVisible (rows.map Prod.fst))
    (flush : ∃ line ∈ rows.map Prod.fst, ∃ c ∈ line.head?, c ∉ [' ', '\t'])
    (blank : IsIndentation indent)
    (listed : ∀ ending ∈ opening :: rows.map Prod.snd, ending ∈ lineEnds)
    (apart : EndsApart indent opening rows) :
    let text := blockText indent opening rows
    let s : Source := ⟨String.ofList text, name⟩
    s.tokens = ⟨[⟨.blockString s.content, .first, .ending text⟩,
      ⟨.endOfInput, .ending text, .ending text⟩], none⟩ ∧
    s.parseValue = .ok (.string ⟨some ⟨s, .first, .ending text⟩, value, true⟩) := by
  intro text s
  obtain ⟨chars, valued⟩ :=
    isBlockValue_rows no_return allowed parts visible flush blank listed apart
  have tokens := tokens_blockString name chars
  refine ⟨tokens, parseValue_blockString tokens ?_⟩
  rw [TokenKind.stringValue?, String.toList_ofList, value_quoted, (isBlockValue_iff chars).mp valued]
  simp [Except.map]

/-- Lines with an empty one among them, with a backslash and many quotes at their ends, indented by a
tab. -/
theorem block_string_round_trip_quotes :
    let rows : List EndedLine := [("a\\".toList, ['\r']), ([], ['\n']), (" \"\"\"\"\"".toList, ['\r', '\n'])]
    let text := blockText ['\t'] ['\r'] rows
    let s : Source := ⟨String.ofList text, Source.defaultName⟩
    s.content = "\"\"\"\r\ta\\\r\t\n\t \\\"\"\"\"\"\r\n\"\"\"" ∧
      s.parseValue = .ok (.string ⟨some ⟨s, .first, .ending text⟩, "a\\\n\n \"\"\"\"\"", true⟩) := by
  intro rows text s
  have parts : IsLines "a\\\n\n \"\"\"\"\"".toList (rows.map Prod.fst) := isLines_iff.mpr (by decide)
  have visible : EndsVisible (rows.map Prod.fst) := by simp [EndsVisible, rows, IsIndentation]
  have allowed : ∀ c ∈ "a\\\n\n \"\"\"\"\"".toList, Lexeme.isBarred c = false := by
    simp [Lexeme.isBarred]
  refine ⟨by decide +kernel,
    (block_string_round_trip (by decide) allowed parts visible ?_ ?_ ?_ ?_).2⟩
  · exact ⟨"a\\".toList, by simp [rows], 'a', by decide, by decide⟩
  · simp [IsIndentation]
  · simp [rows, lineEnds]
  · simp [rows, EndsApart]

/-- Where the ends of an empty line and of the one before it meet, the empty line is lost. -/
theorem empty_line_lost :
    ¬ ∀ (value name : String) (indent opening : List Char) (rows : List EndedLine),
      '\r' ∉ value.toList → (∀ c ∈ value.toList, Lexeme.isBarred c = false) →
      IsLines value.toList (rows.map Prod.fst) → EndsVisible (rows.map Prod.fst) →
      (∃ line ∈ rows.map Prod.fst, ∃ c ∈ line.head?, c ∉ [' ', '\t']) → IsIndentation indent →
      (∀ ending ∈ opening :: rows.map Prod.snd, ending ∈ lineEnds) →
      ∃ origin, (⟨String.ofList (blockText indent opening rows), name⟩ : Source).parseValue =
        .ok (.string ⟨origin, value, true⟩) := by
  intro claim
  let rows : List EndedLine := [(['a'], ['\r']), ([], ['\n']), (['b'], ['\n'])]
  have parts : IsLines "a\n\nb".toList (rows.map Prod.fst) := isLines_iff.mpr (by decide)
  have visible : EndsVisible (rows.map Prod.fst) := by simp [EndsVisible, rows, IsIndentation]
  have allowed : ∀ c ∈ "a\n\nb".toList, Lexeme.isBarred c = false := by
    simp [Lexeme.isBarred]
  obtain ⟨origin, read⟩ := claim "a\n\nb" Source.defaultName [] ['\n'] rows (by decide) allowed parts
    visible ⟨['a'], by simp [rows], 'a', by decide, by decide⟩ (by simp [IsIndentation])
    (by simp [rows, lineEnds])
  have rows_stand : StandsFor (blockRows [] rows) (plainRows [] rows) := .rows (by simp [IsIndentation])
    (by simp [rows, Lexeme.isBarred]) (by simp [rows, lineEnds])
  have feed : ['\n'] ∈ lineEnds := by simp [lineEnds]
  obtain ⟨chars, -⟩ := rows_stand.ending feed
  have tokens := tokens_blockString Source.defaultName chars
  have cooked : (TokenKind.blockString (String.ofList (blockText [] ['\n'] rows))).stringValue? =
      some (.ok "a\nb") := by decide +kernel
  have read' := parseValue_blockString tokens cooked
  rw [blockText, read', Except.ok.injEq, Value.string.injEq, StringValue.mk.injEq] at read
  exact absurd read.2.1 (by decide)

end GraphQL
