import GraphQL.Proofs.Parser.Steps
import GraphQL.Proofs.Scanner.Written

/-! The steps of a parser, run on tokens that are known: when the tokens that follow decide what a
step does, and what is left after it. -/
namespace GraphQL

/-- The sorts of the tokens that a cursor has before it, in a stream that is not cut off. -/
structure Cursor.Faces (c : Cursor) (ks : List TokenKind) : Prop where
  pending : kinds c.pending = ks
  failure : c.failure = none

/-- What a parser gives as its origin to a node between two places. -/
abbrev Cursor.spanTo (c c' : Cursor) : Option Origin :=
  some ⟨c'.source, c.current.start, c'.lastEnd⟩

/-- There are tokens, and the first of them is none of `bad`. -/
def Follows (bad : List TokenKind) (ks : List TokenKind) : Prop :=
  ∃ k rest, ks = k :: rest ∧ k ∉ bad

/-- If there are tokens, the first of them is none of `bad`. -/
def Avoids (bad : List TokenKind) (ks : List TokenKind) : Prop := ∀ k ∈ ks.head?, k ∉ bad

namespace Follows

variable {bad bad' ks rest : List TokenKind} {k : TokenKind}

@[simp] theorem cons_iff : Follows bad (k :: ks) ↔ k ∉ bad := by
  constructor
  · rintro ⟨k', rest, h, free⟩
    cases h
    exact free
  · intro free
    exact ⟨k, ks, rfl, free⟩

theorem ne_nil (h : Follows bad ks) : ks ≠ [] := by
  obtain ⟨k, rest, rfl, -⟩ := h
  simp

theorem append_left (h : Follows bad ks) (rest : List TokenKind) : Follows bad (ks ++ rest) := by
  obtain ⟨k, later, rfl, free⟩ := h
  exact ⟨k, later ++ rest, rfl, free⟩

/-- What may be missing is followed by what comes after it. -/
theorem append (first : Avoids bad ks) (h : Follows bad rest) : Follows bad (ks ++ rest) := by
  cases ks with
  | nil => exact h
  | cons k later => exact ⟨k, later ++ rest, rfl, first k rfl⟩

/-- Tokens of any sort come before others. -/
theorem any (h : Follows bad rest) (ks : List TokenKind) : Follows [] (ks ++ rest) := by
  obtain ⟨k, later, rfl, -⟩ := h
  cases ks <;> simp

theorem mono (h : Follows bad ks) (sub : ∀ k ∈ bad', k ∈ bad) : Follows bad' ks := by
  obtain ⟨k, rest, rfl, free⟩ := h
  exact ⟨k, rest, rfl, fun h => free (sub k h)⟩

theorem avoids (h : Follows bad ks) : Avoids bad ks := by
  obtain ⟨k, rest, rfl, free⟩ := h
  intro k' hk
  cases hk
  exact free

end Follows

namespace Avoids

variable {α : Type} {bad ks : List TokenKind}

theorem nil : Avoids bad [] := by simp [Avoids]

theorem append {first later : List TokenKind} (h : Avoids bad first) (h' : Avoids bad later) :
    Avoids bad (first ++ later) := by
  cases first with
  | nil => exact h'
  | cons k rest => exact h

theorem mul {A B : Spelling} (first : ∀ ks ∈ A, Avoids bad ks) (later : ∀ ks ∈ B, Avoids bad ks)
    (h : ks ∈ A * B) : Avoids bad ks := by
  rw [Language.mem_mul] at h
  obtain ⟨a, ha, b, hb, rfl⟩ := h
  exact (first a ha).append (later b hb)

/-- A block is missing or starts with its mark. -/
theorem block {opening closing : Punctuator} {f : α → Spelling} {as : List α}
    (free : .punctuator opening ∉ bad) (h : ks ∈ Spelling.block opening closing f as) :
    Avoids bad ks := by
  cases as with
  | nil =>
    cases (h : ks = [])
    exact nil
  | cons a as =>
    rw [Spelling.block_cons, mul_assoc, Spelling.mem_word_mul] at h
    obtain ⟨later, -, rfl⟩ := h
    exact (Follows.cons_iff.mpr free).avoids

theorem maybe {f : α → Spelling} {o : Option α} (each : ∀ a ∈ o, ∀ ks ∈ f a, Avoids bad ks)
    (h : ks ∈ Spelling.maybe f o) : Avoids bad ks := by
  cases o with
  | none =>
    cases (h : ks = [])
    exact nil
  | some a => exact each a rfl ks h

theorem row {f : α → Spelling} {as : List α} (each : ∀ a ∈ as, ∀ ks ∈ f a, Avoids bad ks)
    (h : ks ∈ Spelling.row f as) : Avoids bad ks := by
  induction as generalizing ks with
  | nil =>
    cases (h : ks = [])
    exact nil
  | cons a as ih =>
    rw [Spelling.row_cons, Language.mem_mul] at h
    obtain ⟨first, spelled, later, others, rfl⟩ := h
    exact (each a (by simp) first spelled).append
      (ih (fun b hb => each b (by simp [hb])) others)

end Avoids

namespace Cursor.Faces

variable {c c' : Cursor} {k : TokenKind} {ks rest bad : List TokenKind}

theorem kind (h : c.Faces (k :: ks)) : c.current.kind = k := by
  have := h.pending
  simp only [Cursor.pending, List.map_cons, List.cons.injEq] at this
  exact this.1

theorem kind_notMem (h : c.Faces ks) (follow : Follows bad ks) : c.current.kind ∉ bad := by
  obtain ⟨k, rest, rfl, free⟩ := follow
  rw [h.kind]
  exact free

/-- A run that leaves fewer tokens has made progress. -/
theorem shorter (h : c.Faces (ks ++ rest)) (h' : c'.Faces rest) (ne : ks ≠ []) :
    c'.upcoming.length < c.upcoming.length := by
  have all := congrArg List.length h.pending
  have left := congrArg List.length h'.pending
  have pos := List.length_pos_iff.mpr ne
  simp only [Cursor.pending, List.length_map, List.length_cons, List.length_append] at all left
  omega

end Cursor.Faces

namespace Parser

variable {c : Cursor} {k : TokenKind} {ks bad : List TokenKind}

theorem consume_faces (h : c.Faces (k :: ks)) (more : ks ≠ []) :
    ∃ c', consume c = .ok (c.current, c') ∧ c'.Faces ks := by
  have pending := h.pending
  simp only [Cursor.pending, List.map_cons, List.cons.injEq] at pending
  obtain ⟨t, ts, upcoming⟩ := List.exists_cons_of_ne_nil
    (fun none => more (by rw [← pending.2, none]; rfl) : c.upcoming ≠ [])
  refine ⟨{ c with current := t, upcoming := ts, lastEnd := c.current.stop }, ?_, ?_, h.failure⟩
  · simp [consume, upcoming]
  · rw [← pending.2, upcoming]
    rfl

theorem accept_faces {m : Punctuator} (h : c.Faces (.punctuator m :: ks))
    (more : ks ≠ []) : ∃ c', accept m c = .ok (true, c') ∧ c'.Faces ks := by
  obtain ⟨c', consumed, faces⟩ := consume_faces h more
  refine ⟨c', ?_, faces⟩
  rw [accept, atMark_bind, if_pos (decide_eq_true h.kind), bind_eq consumed]
  rfl

/-- A mark is not accepted where it does not follow. -/
theorem accept_none {m : Punctuator} (h : c.Faces ks) (follow : Follows bad ks)
    (free : .punctuator m ∈ bad) : accept m c = .ok (false, c) := by
  have other : c.current.kind ≠ .punctuator m := by
    intro same
    exact h.kind_notMem follow (same ▸ free)
  rw [accept, atMark_bind, if_neg (by simp [other])]
  rfl

theorem acceptKeyword_faces {text : String} (h : c.Faces (.name text :: ks))
    (more : ks ≠ []) : ∃ c', acceptKeyword text c = .ok (true, c') ∧ c'.Faces ks := by
  obtain ⟨c', consumed, faces⟩ := consume_faces h more
  refine ⟨c', ?_, faces⟩
  rw [acceptKeyword, atKeyword_bind, if_pos (TokenKind.isKeyword_iff.mpr h.kind), bind_eq consumed]
  rfl

theorem acceptKeyword_none {text : String} (h : c.Faces ks) (follow : Follows bad ks)
    (free : .name text ∈ bad) : acceptKeyword text c = .ok (false, c) := by
  have other : c.current.kind ≠ .name text := by
    intro same
    exact h.kind_notMem follow (same ▸ free)
  rw [acceptKeyword, atKeyword_bind, if_neg (by simp [other])]
  rfl

theorem expect_faces {m : Punctuator} (h : c.Faces (.punctuator m :: ks))
    (more : ks ≠ []) : ∃ c', expect m c = .ok (c.current, c') ∧ c'.Faces ks := by
  obtain ⟨c', consumed, faces⟩ := consume_faces h more
  refine ⟨c', ?_, faces⟩
  rw [expect, atMark_bind, if_pos (decide_eq_true h.kind)]
  exact consumed

theorem expectKeyword_faces {text : String} (h : c.Faces (.name text :: ks))
    (more : ks ≠ []) : ∃ c', expectKeyword text c = .ok (c.current, c') ∧ c'.Faces ks := by
  obtain ⟨c', consumed, faces⟩ := consume_faces h more
  refine ⟨c', ?_, faces⟩
  rw [expectKeyword, atKeyword_bind, if_pos (TokenKind.isKeyword_iff.mpr h.kind)]
  exact consumed

end Parser
end GraphQL
