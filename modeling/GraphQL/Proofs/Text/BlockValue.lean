import GraphQL.Proofs.Text.Lines
import GraphQL.Proofs.Scanner.Splitting

/-! The value of a block string, apart from how it is computed: the lines between the quotes without
the indentation that they share and without blank lines at both ends. Every block string that is read
has this value, and the value is a text of lines again. -/
namespace GraphQL

namespace Text
open Lexical

variable {body value text line first : List Char} {later kept ls : List (List Char)} {n : Nat}

/-- What some characters of a block string stand for: its escapes stand for three quotes. An escape is
told with the closing quotes in view. -/
inductive Unescaped : List Char → List Char → Prop
  | nil : Unescaped [] []
  | escaped {cs ds : List Char} (later : Unescaped cs ds) :
      Unescaped ('\\' :: (tripleQuote ++ cs)) (tripleQuote ++ ds)
  | plain {c : Char} {cs ds : List Char}
      (escapes : ¬ '\\' :: tripleQuote <+: c :: (cs ++ tripleQuote)) (later : Unescaped cs ds) :
      Unescaped (c :: cs) (c :: ds)

/-- Nothing but spaces and tabs. -/
def IsIndentation (cs : List Char) : Prop := ∀ c ∈ cs, c ∈ [' ', '\t']

/-- A line with so many spaces and tabs at its start. -/
def IndentedBy (n : Nat) (line : List Char) : Prop :=
  ∃ start rest, line = start ++ rest ∧ IsIndentation start ∧ start.length = n ∧
    ∀ c ∈ rest.head?, c ∉ [' ', '\t']

/-- The least indentation of the lines that are not blank; zero, if all are. -/
def IsCommonIndent (ls : List (List Char)) (n : Nat) : Prop :=
  (∃ line ∈ ls, ¬ IsIndentation line ∧ IndentedBy n line) ∧
      (∀ line ∈ ls, ¬ IsIndentation line → ∀ m, IndentedBy m line → n ≤ m) ∨
    (∀ line ∈ ls, IsIndentation line) ∧ n = 0

/-- Lines that start and end with lines that are not blank, if there are any. -/
def EndsVisible (ls : List (List Char)) : Prop :=
  (∀ line ∈ ls.head?, ¬ IsIndentation line) ∧ ∀ line ∈ ls.getLast?, ¬ IsIndentation line

/-- Some lines are others without blank lines at both ends. -/
def Trims (ls kept : List (List Char)) : Prop :=
  ∃ blank blank', ls = blank ++ kept ++ blank' ∧ (∀ line ∈ blank ++ blank', IsIndentation line) ∧
    EndsVisible kept

/-- The value of a block string with these characters between its quotes. -/
def IsBlockValue (body value : List Char) : Prop :=
  ∃ text first later n kept, Unescaped body text ∧ IsLines text (first :: later) ∧
    IsCommonIndent later n ∧ Trims (first :: later.map (List.drop n)) kept ∧
    value = List.intercalate ['\n'] kept

/-! ### The steps of the reader -/

/-- A character that starts no escape stays. -/
theorem unescape_plain {c : Char} {cs : List Char}
    (escapes : ¬ '\\' :: tripleQuote <+: c :: (cs ++ tripleQuote)) :
    Block.unescape (c :: cs) = c :: Block.unescape cs := by
  rw [Block.unescape.eq_2]
  rintro cs' rfl rfl
  exact escapes ⟨cs' ++ tripleQuote, by simp [tripleQuote]⟩

theorem escape_append (cs : List Char) :
    '\\' :: tripleQuote <+: '\\' :: (tripleQuote ++ cs ++ tripleQuote) :=
  ⟨cs ++ tripleQuote, by simp⟩

/-- Quotes that the scanner takes for escaped are those that are unescaped, though the one sees the
closing quotes and the other does not. -/
theorem unescaped_iff {allowed : Char → Prop} (chars : BlockChars allowed body) :
    Unescaped body text ↔ Block.unescape body = text := by
  constructor
  · intro h
    induction h with
    | nil => rfl
    | escaped later ih =>
      cases chars with
      | escaped chars => simp [tripleQuote, Block.unescape, ih chars]
      | plain allowed opens escapes chars => exact absurd (escape_append _) escapes
    | plain escapes later ih =>
      cases chars with
      | escaped chars => exact absurd (escape_append _) escapes
      | plain allowed opens _ chars => rw [unescape_plain escapes, ih chars]
  · rintro rfl
    induction chars with
    | nil => exact .nil
    | escaped later ih => simpa [tripleQuote, Block.unescape] using Unescaped.escaped ih
    | plain allowed opens escapes later ih =>
      rw [unescape_plain escapes]
      exact .plain escapes ih

theorem isIndent_iff {c : Char} : Block.isIndent c = true ↔ c ∈ [' ', '\t'] := by
  simp [Block.isIndent]

theorem isBlankLine_iff : Block.isBlankLine line = true ↔ IsIndentation line := by
  simp [Block.isBlankLine, IsIndentation, Block.isIndent]

theorem indentedBy_iff : IndentedBy n line ↔ Block.indent line = n := by
  constructor
  · rintro ⟨start, rest, rfl, blank, rfl, stops⟩
    rw [Block.indent, Lexeme.takeWhile_run (fun c hc => isIndent_iff.mpr (blank c hc))]
    intro c hc
    rw [← Bool.not_eq_true, isIndent_iff]
    exact stops c hc
  · rintro rfl
    refine ⟨line.takeWhile Block.isIndent, line.dropWhile Block.isIndent, by simp, ?_, rfl, ?_⟩
    · exact fun c hc => isIndent_iff.mp (List.mem_takeWhile_imp hc)
    · intro c hc
      rw [← isIndent_iff, Bool.not_eq_true]
      exact Lexeme.stops_dropWhile Block.isIndent line c hc

theorem isCommonIndent_iff (first : List Char) :
    IsCommonIndent later n ↔ (Block.commonIndent? (first :: later)).getD 0 = n := by
  have listed (m : Nat) : m ∈ (later.filter (!Block.isBlankLine ·)).map Block.indent ↔
      ∃ line ∈ later, ¬ IsIndentation line ∧ IndentedBy m line := by
    simp [indentedBy_iff, ← isBlankLine_iff, and_assoc]
  rw [Block.commonIndent?, List.drop_one, List.tail_cons]
  cases least : ((later.filter (!Block.isBlankLine ·)).map Block.indent).min? with
  | none =>
    rw [List.min?_eq_none_iff] at least
    simp only [least, List.not_mem_nil, false_iff, not_exists, not_and] at listed
    have blank : ∀ line ∈ later, IsIndentation line := by
      intro line hline
      by_contra visible
      exact listed _ line hline visible (indentedBy_iff.mpr rfl)
    constructor
    · rintro (⟨⟨line, hline, visible, -⟩, -⟩ | ⟨-, rfl⟩)
      · exact absurd (blank line hline) visible
      · rfl
    · rintro rfl
      exact .inr ⟨blank, rfl⟩
  | some m =>
    obtain ⟨attained, bound⟩ := List.min?_eq_some_iff.mp least
    obtain ⟨line, hline, visible, indented⟩ := (listed m).mp attained
    have below : ∀ line ∈ later, ¬ IsIndentation line → ∀ k, IndentedBy k line → m ≤ k :=
      fun line hline visible k indented => bound k ((listed k).mpr ⟨line, hline, visible, indented⟩)
    constructor
    · rintro (⟨⟨line', hline', visible', indented'⟩, below'⟩ | ⟨blank, -⟩)
      · exact le_antisymm (below line' hline' visible' n indented')
          (below' line hline visible m indented)
      · exact absurd (blank line hline) visible
    · rintro rfl
      exact .inl ⟨⟨line, hline, visible, indented⟩, below⟩

theorem dropWhile_visible (first : ∀ line ∈ ls.head?, ¬ IsIndentation line) :
    ls.dropWhile Block.isBlankLine = ls := by
  cases ls with
  | nil => rfl
  | cons line later =>
    exact List.dropWhile_cons_of_neg (isBlankLine_iff.not.mpr (first line rfl))

theorem visible_dropWhile (ls : List (List Char)) :
    ∀ line ∈ (ls.dropWhile Block.isBlankLine).head?, ¬ IsIndentation line := by
  intro line first
  have visible := List.head?_dropWhile_not Block.isBlankLine ls
  rw [Option.mem_def] at first
  rw [first] at visible
  simpa [← isBlankLine_iff] using visible

/-- Trimming is the one way to take the blank lines at both ends off. -/
theorem trims_iff : Trims ls kept ↔ Block.trim ls = kept := by
  constructor
  · rintro ⟨blank, blank', rfl, all, first, last⟩
    simp only [← isBlankLine_iff, List.forall_mem_append] at all
    rw [Block.trim, List.append_assoc, List.dropWhile_append_of_pos all.1]
    by_cases none : kept = []
    · rw [none, List.nil_append, List.dropWhile_eq_nil_iff.mpr all.2]
      rfl
    · have front : ∀ line ∈ (kept ++ blank').head?, ¬ IsIndentation line := by
        rwa [List.head?_append_of_ne_nil _ none]
      rw [dropWhile_visible front, List.reverse_append,
        List.dropWhile_append_of_pos (by simpa using all.2),
        dropWhile_visible (by simpa using last), List.reverse_reverse]
  · rintro rfl
    have split := List.takeWhile_append_dropWhile (p := Block.isBlankLine) (l := ls)
    have back : Block.trim ls ++
          ((ls.dropWhile Block.isBlankLine).reverse.takeWhile Block.isBlankLine).reverse =
        ls.dropWhile Block.isBlankLine := by
      rw [Block.trim, ← List.reverse_append, List.takeWhile_append_dropWhile, List.reverse_reverse]
    refine ⟨_, _, by rw [List.append_assoc, back, split], ?_, ?_, ?_⟩
    · simp only [List.mem_append, List.mem_reverse, ← isBlankLine_iff]
      rintro line (front | back)
      · exact List.mem_takeWhile_imp front
      · exact List.mem_takeWhile_imp back
    · intro line first
      refine visible_dropWhile ls line ?_
      rw [← back, List.head?_append, first]
      rfl
    · rw [Block.trim, List.getLast?_reverse]
      exact visible_dropWhile _

/-- The reader computes the value of a block string, for every body that a scanner gives it. -/
theorem isBlockValue_iff {allowed : Char → Prop} (chars : BlockChars allowed body) :
    IsBlockValue body value ↔ Block.decode body = value := by
  constructor
  · rintro ⟨text, first, later, n, kept, unescaped, parts, common, trims, rfl⟩
    rw [Block.decode, (unescaped_iff chars).mp unescaped, isLines_iff.mp parts, Block.dedent,
      (isCommonIndent_iff first).mp common, trims_iff.mp trims]
  · rintro rfl
    obtain ⟨first, later, parts⟩ := List.exists_cons_of_ne_nil (lines_ne_nil (Block.unescape body))
    refine ⟨_, first, later, _, _, (unescaped_iff chars).mpr rfl, isLines_iff.mpr parts,
      (isCommonIndent_iff first).mpr rfl, trims_iff.mpr rfl, ?_⟩
    rw [Block.decode, parts, Block.dedent]

/-- What stands between the quotes is found, whatever it is. -/
theorem value_quoted (body : List Char) :
    Block.value (tripleQuote ++ body ++ tripleQuote) = .ok (Block.decode body) := by
  have front : List.isPrefixOf? Block.quotes (tripleQuote ++ body ++ tripleQuote) =
      some (body ++ tripleQuote) := by simp [Block.quotes, tripleQuote, List.isPrefixOf?]
  have back : List.isSuffixOf? Block.quotes (body ++ tripleQuote) = some body := by
    simp [Block.quotes, tripleQuote, List.isSuffixOf?, List.isPrefixOf?]
  simp only [Block.value, front, back]

/-! ### What the value is like -/

theorem byteLength_indentation (blank : IsIndentation line) : byteLength line = line.length := by
  induction line with
  | nil => rfl
  | cons c line ih =>
    obtain ⟨here, later⟩ := List.forall_mem_cons.mp blank
    have one : c.utf8Size = 1 := by
      rcases List.mem_pair.mp here with rfl | rfl <;> rfl
    rw [byteLength_cons, one, ih later, List.length_cons, Nat.add_comm]

theorem length_le_byteLength (line : List Char) : line.length ≤ byteLength line := by
  induction line with
  | nil => exact Nat.le_refl 0
  | cons c line ih =>
    have pos := c.utf8Size_pos
    simp only [List.length_cons, byteLength_cons]
    omega

/-- What a line loses is indentation: all of it in a blank line that is shorter. -/
theorem isIndentation_take (common : IsCommonIndent later n) (mem : line ∈ later) :
    IsIndentation (line.take n) ∧ (IsIndentation line ∨ n ≤ line.length) := by
  by_cases blank : IsIndentation line
  · exact ⟨fun c hc => blank c (List.mem_of_mem_take hc), .inl blank⟩
  rcases common with ⟨-, below⟩ | ⟨all, -⟩
  · have indented : IndentedBy (Block.indent line) line := indentedBy_iff.mpr rfl
    have le := below line mem blank _ indented
    obtain ⟨start, rest, rfl, blank', size, -⟩ := indented
    rw [← size] at le
    refine ⟨?_, .inr (by simp; omega)⟩
    rw [List.take_append_of_le_length le]
    exact fun c hc => blank' c (List.mem_of_mem_take hc)
  · exact absurd (all line mem) blank

/-- Cutting a line by bytes leaves characters whole: the line is cut behind the common indentation,
or at its end if that comes first. -/
theorem splitAtByte_indent (common : IsCommonIndent later n) (mem : line ∈ later) :
    splitAtByte (min n (byteLength line)) line = some (line.take n, line.drop n) := by
  obtain ⟨blank, whole⟩ := isIndentation_take common mem
  have bytes : min n (byteLength line) = byteLength (line.take n) := by
    rw [byteLength_indentation blank, List.length_take]
    rcases whole with whole | le
    · rw [byteLength_indentation whole]
    · have := length_le_byteLength line
      omega
  have cut := splitAtByte_append (line.take n) (line.drop n)
  rwa [List.take_append_drop, ← bytes] at cut

/-- The value has lines of its own, that start and end with lines that are not blank. -/
theorem IsBlockValue.lines (h : IsBlockValue body value) :
    '\r' ∉ value ∧ (value = [] ∨ ∃ ls, IsLines value ls ∧ EndsVisible ls) := by
  obtain ⟨text, first, later, n, kept, -, parts, -, ⟨blank, blank', split, -, visible⟩, rfl⟩ := h
  have plain : ∀ line ∈ kept, ∀ c ∈ line, isTerminator c = false := by
    intro line hline c hc
    have among : line ∈ first :: later.map (List.drop n) := by simp [split, hline]
    rw [List.mem_cons, List.mem_map] at among
    obtain rfl | ⟨long, hlong, rfl⟩ := among
    · exact parts.plain line List.mem_cons_self c hc
    · exact parts.plain long (List.mem_cons_of_mem _ hlong) c (List.mem_of_mem_drop hc)
  refine ⟨fun carriage => ?_, ?_⟩
  · obtain feed | ⟨line, hline, inside⟩ := mem_of_mem_intercalate carriage
    · cases feed
    · cases plain line hline _ inside
  · by_cases none : kept = []
    · exact .inl (by rw [none]; rfl)
    · exact .inr ⟨kept, isLines_intercalate none plain, visible⟩

end Text

open Text Lexical in
/-- Every block string that a scanner finds, whatever it came to before, has the one value that the
lines between its quotes have. -/
theorem block_strings_valued {source : Source} {n : Nat} {t : Token} {literal : String}
    (step : ((Scanner.start source).after n).next.1 = .ok t) (block : t.kind = .blockString literal) :
    ∃ body value,
      slice t.start.offset t.stop.offset source.chars = some (tripleQuote ++ body ++ tripleQuote) ∧
      t.kind.stringValue? = some (.ok value) ∧
      (∀ w, IsBlockValue body w ↔ value.toList = w) ∧
      (∀ text first later k, Unescaped body text → IsLines text (first :: later) →
        IsCommonIndent later k → ∀ line ∈ later,
          splitAtByte (min k (byteLength line)) line = some (line.take k, line.drop k)) ∧
      '\r' ∉ value.toList ∧
      (value = "" ∨ ∃ ls, IsLines value.toList ls ∧ EndsVisible ls) := by
  have found : ((Scanner.start source).after n).next =
      (.ok t, ((Scanner.start source).after n).next.2) := Prod.ext step rfl
  have lexeme : IsLexeme (fun c => Lexeme.isBarred c = false) t.kind
      ((Scanner.start source).after n).next.2.rest := by
    rcases Scanner.splits_next found (by simp [block, EscapesAllowed]) with ⟨last, -⟩ | ⟨_, _, _, h⟩
    · rw [block] at last
      cases last
    · exact h
  rw [block] at lexeme
  cases lexeme with
  | @blockString _ _ body chars' quoted =>
    have value : t.kind.stringValue? = some (.ok (String.ofList (Block.decode body))) := by
      rw [block, TokenKind.stringValue?, quoted, value_quoted]
      rfl
    refine ⟨body, String.ofList (Block.decode body), ?_, value, ?_, ?_, ?_⟩
    · rw [Scanner.slice_next step, block, TokenKind.written, quoted]
    · intro w
      rw [isBlockValue_iff chars', String.toList_ofList]
    · exact fun text first later k _ _ common line mem => splitAtByte_indent common mem
    · have := ((isBlockValue_iff chars').mpr rfl).lines
      simpa using this

open Text Lexical in
/-- A block string after a fault, with line ends of two sorts and a blank line between its lines. -/
theorem block_strings_valued_after_fault :
    let source : Source := ⟨"~ \"\"\"\n  a\r\n\n \tb\\\"\"\"\"\"\"", Source.defaultName⟩
    ∃ t body, ((Scanner.start source).after 1).next.1 = .ok t ∧
      t.kind.stringValue? = some (.ok "a\n\nb\"\"\"") ∧
      ∀ w, IsBlockValue body w ↔ "a\n\nb\"\"\"".toList = w := by
  intro source
  let literal := "\"\"\"\n  a\r\n\n \tb\\\"\"\"\"\"\""
  have step : ((Scanner.start source).after 1).next.1 =
      .ok ⟨.blockString literal, ⟨0, 2, 2, 2⟩, ⟨3, 10, 10, 22⟩⟩ := by decide +kernel
  have cooked : (TokenKind.blockString literal).stringValue? = some (.ok "a\n\nb\"\"\"") := by
    decide +kernel
  obtain ⟨body, value, -, valued, unique, -⟩ := block_strings_valued step rfl
  rw [cooked] at valued
  cases valued
  exact ⟨_, body, step, cooked, unique⟩

end GraphQL
