import GraphQL.Proofs.Scanner.Faults
import GraphQL.Proofs.Scanner.Rereading
import GraphQL.Proofs.Scanner.Positions

/-! Parts of a source between two positions. Tokens, rows of tokens and faults cover such parts, and
none of them begins in the middle of a line break. -/
namespace GraphQL

/-- An origin cuts a part out of its source, in front of which no line break is cut in two. -/
structure Origin.Cuts (o : Origin) (before middle after : List Char) : Prop where
  chars : o.source.chars = before ++ middle ++ after
  start : o.start = .ending before
  stop : o.stop = .ending (before ++ middle)
  begins : (middle ++ after).head? ≠ some '\n'

/-- An origin cuts a part out of its source. -/
def Origin.IsCut (o : Origin) : Prop := ∃ before middle after, o.Cuts before middle after

theorem Place.position_pass (a b : List Char) :
    ((Place.first.pass a).pass b).position = .ending (a ++ b) := by
  rw [← Place.pass_append, Place.pass_first]

namespace Lexeme
open Text

variable {c : Char} {cs : List Char}

theorem ne_feed_of_isBarred {d : Char} (barred : isBarred d = true) : d ≠ '\n' := by
  rintro rfl
  cases barred

/-- Only a character that may not stand in a string has others before it in its lexeme. -/
def BeginsVisibly (l : Lexeme) : Prop := l.before = [] ∨ ∃ d, l.taken = [d] ∧ d ≠ '\n'

theorem beginsVisibly_dots (cs : List Char) : (dots cs).BeginsVisibly := by
  unfold dots
  dsimp only
  split
  · split
    · split <;> exact .inl rfl
    · exact .inl rfl
  · exact .inl rfl

theorem beginsVisibly_number (cs : List Char) : (number cs).BeginsVisibly := by
  unfold number
  dsimp only
  split
  · exact .inl rfl
  · exact .inl rfl
  · split <;> exact .inl rfl

theorem beginsVisibly_string (cs : List Char) : (string cs).BeginsVisibly := by
  unfold string
  dsimp only
  split
  · exact .inl rfl
  · exact .inl rfl
  · split
    · exact .inl rfl
    · next no_end =>
      refine .inr ⟨_, rfl, ?_⟩
      rintro rfl
      exact no_end rfl

theorem beginsVisibly_blockString (cs : List Char) : (blockString cs).BeginsVisibly := by
  have stops := stopsBlock_blockBody cs
  unfold blockString
  dsimp only
  split
  · exact .inl rfl
  · exact .inl rfl
  · next d rest no_quotes text =>
    rcases stops with none | ⟨stop, tail, rfl | ⟨c, rfl, barred⟩, found⟩
    · rw [text] at none
      cases none
    · obtain ⟨rfl, rfl⟩ := List.cons.inj (text.symm.trans found)
      exact absurd rfl (no_quotes tail rfl)
    · obtain ⟨rfl, -⟩ := List.cons.inj (text.symm.trans found)
      exact .inr ⟨d, rfl, ne_feed_of_isBarred barred⟩

theorem beginsVisibly_read (c : Char) (cs : List Char) : (read c cs).BeginsVisibly := by
  unfold read
  split
  · exact .inl rfl
  · split_ifs
    · exact beginsVisibly_dots cs
    · unfold anyString
      split
      · exact beginsVisibly_blockString _
      · exact beginsVisibly_string _
    · exact .inl rfl
    · exact beginsVisibly_number _
    · exact .inl rfl

/-- What a lexeme is about does not begin with a line feed, unless its text does. -/
theorem begins_read (visible : c ≠ '\n') :
    ((read c cs).taken ++ (read c cs).rest).head? ≠ some '\n' := by
  have whole := whole_read c cs
  rcases beginsVisibly_read c cs with none | ⟨d, taken, other⟩
  · rw [Lexeme.whole, none, List.nil_append] at whole
    simpa [whole] using visible
  · simpa [taken] using other

end Lexeme

namespace Scanner

variable {s : Scanner}

/-- A token or an error is about a part of a source. -/
def CutsOut (source : Source) : Except SyntaxError Token → Prop
  | .ok t => (t.origin source).IsCut
  | .error e => e.origin.source = source ∧ e.origin.IsCut

theorem IsIn.locate_cuts (h : s.IsIn s.source) {l : Lexeme} (whole : s.rest = l.whole)
    (begins : (l.taken ++ l.rest).head? ≠ some '\n') : CutsOut s.source (s.locate l) := by
  obtain ⟨before, chars, place⟩ := h
  have cuts : (Origin.mk s.source (s.place.pass l.before).position
      (s.place.pass (l.before ++ l.taken)).position).Cuts (before ++ l.before) l.taken l.rest := by
    refine ⟨?_, ?_, ?_, begins⟩
    · simp [chars, whole, Lexeme.whole]
    · simp only [place, Place.position_pass]
    · simp only [place, Place.position_pass, List.append_assoc]
  unfold Scanner.locate
  cases l.outcome with
  | ok k => exact ⟨_, _, _, cuts⟩
  | error v => exact ⟨rfl, _, _, _, cuts⟩

/-- What comes behind characters that are ignored is visible. -/
theorem head?_splitIgnored (inComment : Bool) (cs : List Char) :
    (Lexeme.splitIgnored inComment cs).2.head? ≠ some '\n' := by
  fun_induction Lexeme.splitIgnored inComment cs with
  | case1 => simp
  | case2 inComment c cs stays skipped rest split ih => simpa [split] using ih
  | case3 inComment c cs goes ignored skipped rest split ih => simpa [split] using ih
  | case4 inComment c cs goes shown hash skipped rest split ih => simpa [split] using ih
  | case5 inComment c cs goes shown no_hash =>
    intro feed
    cases feed
    exact shown rfl

theorem source_next (s : Scanner) : s.next.2.source = s.source := by
  unfold Scanner.next
  simp only [skipIgnored_eq]
  split <;> rfl

theorem IsIn.next_cuts (h : s.IsIn s.source) : CutsOut s.source s.next.1 := by
  have here := h.skipIgnored
  have source : s.skipIgnored.source = s.source := by rw [skipIgnored_eq]; rfl
  have visible := head?_splitIgnored false s.rest
  have same : s.skipIgnored.rest = (Lexeme.splitIgnored false s.rest).2 := by rw [skipIgnored_eq]; rfl
  rw [← same] at visible
  unfold Scanner.next
  dsimp only
  split
  · next nothing =>
    obtain ⟨before, chars, place⟩ := here
    refine ⟨before, [], [], ?_, ?_, ?_, by simp⟩
    · simpa [nothing, source, Token.origin] using chars
    · simp only [Token.origin, place, Place.pass_first]
    · simp only [Token.origin, place, Place.pass_first, List.append_nil]
  · next c cs text =>
    rw [← source] at here ⊢
    refine here.locate_cuts ?_ (Lexeme.begins_read (by simpa [text] using visible))
    rw [text, Lexeme.whole_read]

/-- All tokens of a stream, and the error that cuts it off, are about parts of the source. -/
theorem IsIn.tokens_cut (h : s.IsIn s.source) :
    (∀ t ∈ s.tokens.tokens, (t.origin s.source).IsCut) ∧
      ∀ e ∈ s.tokens.failure, e.origin.source = s.source ∧ e.origin.IsCut := by
  fun_induction Scanner.tokens s with
  | case1 s e s' found =>
    have cuts := h.next_cuts
    rw [found] at cuts
    simpa [CutsOut] using cuts
  | case2 s t s' found last =>
    have cuts := h.next_cuts
    rw [found] at cuts
    simpa [CutsOut] using cuts
  | case3 s t s' found more later ih =>
    have cuts := h.next_cuts
    have later' := h.next.2
    have source := s.source_next
    rw [found] at cuts later' source
    rw [← source] at later' cuts ⊢
    obtain ⟨tokens, failure⟩ := ih later'
    exact ⟨List.forall_mem_cons.mpr ⟨cuts, tokens⟩, failure⟩

end Scanner

namespace Source

variable {s : Source} {ts : List Token} {o : Origin}

theorem tokens_cut (s : Source) :
    (∀ t ∈ s.tokens.tokens, (t.origin s).IsCut) ∧
      ∀ e ∈ s.tokens.failure, e.origin.source = s ∧ e.origin.IsCut :=
  (Scanner.isIn_after s 0).tokens_cut

/-- Some tokens in a row cover a part of the source. -/
theorem covering_cut {before after : List Token} (tokens : s.tokens.tokens = before ++ ts ++ after)
    (covering : Origin.covering s ts = some o) : o.source = s ∧ o.IsCut := by
  unfold Origin.covering at covering
  split at covering
  · next first last head tail =>
    cases covering
    have ne : ts ≠ [] := by
      rintro rfl
      simp at head
    have tiled := (Scanner.start s).tokens_tiled
    have all : (Scanner.start s).tokens.tokens = before ++ (ts ++ after) := by
      rw [← List.append_assoc, ← tokens]
      rfl
    rw [all] at tiled
    obtain ⟨passed, _, chars, tiled⟩ := tiled.drop
    obtain ⟨gap, text, rest, rfl, -, start, stop⟩ := tiled.covers ne
    have mem : first ∈ s.tokens.tokens := by
      have := List.mem_of_head? head
      simp [tokens, this]
    -- the part begins where its first token does
    obtain ⟨before', middle, after', cut⟩ := s.tokens_cut.1 first mem
    have chars' : (passed ++ gap) ++ (text ++ rest) = before' ++ (middle ++ after') := by
      rw [← List.append_assoc before', ← cut.chars]
      simpa [Scanner.start, Token.origin] using chars.symm
    have place : Position.ending (passed ++ gap) = .ending before' := by
      rw [← cut.start, Token.origin, start first head]
      exact (Place.position_pass passed gap).symm
    obtain ⟨-, here⟩ := Text.append_inj_byteLength chars' (congrArg Position.offset place)
    refine ⟨rfl, passed ++ gap, text, rest, ?_, ?_, ?_, here ▸ cut.begins⟩
    · simpa [Scanner.start] using chars
    · simp only [start first head, Scanner.start, Place.position_pass]
    · simp only [stop last tail, Scanner.start, Place.position_pass, List.append_assoc]
  · cases covering

end Source
end GraphQL
