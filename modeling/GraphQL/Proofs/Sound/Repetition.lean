import GraphQL.Parser.Repetition
import GraphQL.Proofs.Parser.Steps

/-! What parsers read: single tokens, and lists of things in the forms that the grammar has. -/
namespace GraphQL.Parser

open Spelling

variable {α : Type} {const : Bool} {levels : Nat} {c c' : Cursor}

/-- A token that is not the end of the input is consumed alone. -/
theorem consume_reads {t : Token} (ready : c.Ready) (more : c.current.kind ≠ .endOfInput)
    (h : consume c = .ok (t, c')) : c.current = t ∧ Consumes c [t] c' := by
  unfold consume at h
  split at h
  · next u us hu =>
    cases h
    refine ⟨rfl, ?_, rfl, rfl, rfl⟩
    simp [Cursor.pending, hu]
  · next hu =>
    split at h
    · cases h
    · next none => exact absurd (ready.kind_of_last hu none) more

/-- A token of a known sort is read as a word without a tree. -/
theorem consume_word {t : Token} {k : TokenKind} (ready : c.Ready) (kind : c.current.kind = k)
    (more : k ≠ .endOfInput) (h : consume c = .ok (t, c')) :
    Read const levels c c' (word k) [] := by
  obtain ⟨rfl, step⟩ := consume_reads ready (kind ▸ more) h
  exact ⟨[c.current], step, .token kind⟩

theorem accept_reads (const : Bool) (levels : Nat) {m : Punctuator} {b : Bool} (ready : c.Ready)
    (h : accept m c = .ok (b, c')) :
    (b = true ∧ Read const levels c c' (mark m) []) ∨ b = false ∧ c = c' := by
  simp only [accept, bind_ok, atMark_ok] at h
  obtain ⟨_, _, ⟨rfl, rfl⟩, h⟩ := h
  split at h
  · next at_mark =>
    rw [decide_eq_true_eq] at at_mark
    simp only [bind_ok, pure_ok] at h
    obtain ⟨t, c₁, consumed, rfl, rfl⟩ := h
    exact .inl ⟨rfl, consume_word ready at_mark (by simp) consumed⟩
  · simp only [pure_ok] at h
    obtain ⟨rfl, rfl⟩ := h
    exact .inr ⟨rfl, rfl⟩

theorem acceptKeyword_reads (const : Bool) (levels : Nat) {text : String} {b : Bool}
    (ready : c.Ready) (h : acceptKeyword text c = .ok (b, c')) :
    (b = true ∧ Read const levels c c' (keyword text) []) ∨
      b = false ∧ c = c' := by
  simp only [acceptKeyword, bind_ok, atKeyword_ok] at h
  obtain ⟨_, _, ⟨rfl, rfl⟩, h⟩ := h
  split at h
  · next at_word =>
    rw [TokenKind.isKeyword_iff] at at_word
    simp only [bind_ok, pure_ok] at h
    obtain ⟨t, c₁, consumed, rfl, rfl⟩ := h
    exact .inl ⟨rfl, consume_word ready at_word (by simp) consumed⟩
  · simp only [pure_ok] at h
    obtain ⟨rfl, rfl⟩ := h
    exact .inr ⟨rfl, rfl⟩

theorem expect_reads {m : Punctuator} {t : Token} (ready : c.Ready)
    (h : expect m c = .ok (t, c')) : Read const levels c c' (mark m) [] := by
  simp only [expect, bind_ok, atMark_ok] at h
  obtain ⟨_, _, ⟨rfl, rfl⟩, h⟩ := h
  split at h
  · next at_mark =>
    rw [decide_eq_true_eq] at at_mark
    exact consume_word ready at_mark (by simp) h
  · simp at h

theorem expectKeyword_reads {text : String} {t : Token} (ready : c.Ready)
    (h : expectKeyword text c = .ok (t, c')) : Read const levels c c' (keyword text) [] := by
  simp only [expectKeyword, bind_ok, atKeyword_ok] at h
  obtain ⟨_, _, ⟨rfl, rfl⟩, h⟩ := h
  split at h
  · next at_word =>
    rw [TokenKind.isKeyword_iff] at at_word
    exact consume_word ready at_word (by simp) h
  · simp at h

/-- Whatever the parser returns, it has read. -/
def Reads (const : Bool) (levels : Nat) (p : Parser α) (spelling : α → Spelling)
    (trees : α → List (Tree Node)) : Prop :=
  ∀ ⦃c c' a⦄, c.Ready → p c = .ok (a, c') → Read const levels c c' (spelling a) (trees a)

section Lists

variable {item : Parser α} {spelling : α → Spelling} {tree : α → Tree Node}

/-- A loop reads what its rounds read, one after another, and then what the last round reads, which
returns nothing. -/
theorem collect_reads {step : Parser (Option α)} {last : Spelling}
    (reads : Reads const levels step (·.elim last spelling) (·.toList.map tree)) :
    Reads const levels (collect step) (fun as => row spelling as * last) (·.map tree) := by
  intro c c' as ready h
  fun_induction collect step c generalizing as with
  | case1 c e hs => cases h
  | case2 c c₁ hs =>
    cases h
    simpa using reads ready hs
  | case3 c a c₁ hs shorter e hr => cases h
  | case4 c a c₁ hs shorter as' c₂ hr ih =>
    cases h
    have first := reads ready hs
    have rest := ih (first.ready ready) hr
    simp only [row_cons, mul_assoc]
    exact first.trans rest
  | case5 c a c₁ hs shorter => exact absurd (reads ready hs).progress shorter

/-- A loop whose last round reads nothing. -/
theorem collect_reads_row {step : Parser (Option α)}
    (reads : Reads const levels step (·.elim 1 spelling) (·.toList.map tree)) :
    Reads const levels (collect step) (row spelling) (·.map tree) := by
  have loop := collect_reads reads
  simpa only [mul_one] using loop

variable (reads : Reads const levels item spelling fun a => [tree a])
include reads

theorem itemsUntil_reads (close : Punctuator) :
    Reads const levels (itemsUntil close item) (fun as => row spelling as * mark close)
      (·.map tree) := by
  apply collect_reads
  intro c c' o ready h
  simp only [bind_ok] at h
  obtain ⟨b, c₁, accepted, h⟩ := h
  rcases accept_reads const levels ready accepted with ⟨rfl, closed⟩ | ⟨rfl, rfl⟩
  · simp only [↓reduceIte, pure_ok] at h
    obtain ⟨rfl, rfl⟩ := h
    exact closed
  · simp only [Bool.false_eq_true, ↓reduceIte, bind_ok, pure_ok] at h
    obtain ⟨a, c₁, found, rfl, rfl⟩ := h
    exact reads ready found

omit reads in
/-- A loop that goes on with every item stops where its step returns nothing. -/
theorem collect_stops {step : Parser (Option α)} {last : Spelling} {as : List α}
    (reads : Reads const levels step (·.elim last spelling) (·.toList.map tree)) (ready : c.Ready)
    (h : collect step c = .ok (as, c')) : ∃ c₀, step c₀ = .ok (none, c') := by
  fun_induction collect step c generalizing as with
  | case1 c e hs => cases h
  | case2 c c₁ hs =>
    cases h
    exact ⟨c, hs⟩
  | case3 c a c₁ hs shorter e hr => cases h
  | case4 c a c₁ hs shorter as' c₂ hr ih =>
    cases h
    exact ih ((reads ready hs).ready ready) hr
  | case5 c a c₁ hs shorter => exact absurd (reads ready hs).progress shorter

theorem whileAt_reads (m : Punctuator) :
    Reads const levels (whileAt m item) (row spelling) (·.map tree) := by
  apply collect_reads_row
  intro c c' o ready h
  simp only [lifted_self, bind_ok, atMark_ok] at h
  obtain ⟨_, _, ⟨rfl, rfl⟩, h⟩ := h
  split at h
  · simp only [bind_ok, pure_ok] at h
    obtain ⟨a, c₁, found, rfl, rfl⟩ := h
    exact reads ready found
  · simp only [pure_ok] at h
    obtain ⟨rfl, rfl⟩ := h
    exact .refl c

theorem any_reads (opening closing : Punctuator) :
    Reads const levels (any opening closing item)
      (fun as => mark opening * row spelling as * mark closing) (·.map tree) := by
  intro c c' as ready h
  simp only [any, lifted_self, bind_ok, originOf_ok, parsing_inside, inside_ok] at h
  obtain ⟨t, c₁, opened, _, _, ⟨rfl, rfl⟩, h⟩ := h
  have first : Read const levels c c₁ (mark opening) [] := expect_reads ready opened
  have rest := itemsUntil_reads reads closing (first.ready ready) h
  simp only [mul_assoc]
  exact first.trans rest

theorem many_reads (opening closing : Punctuator) :
    Reads const levels (many opening closing item)
      (fun as => mark opening * row spelling as * mark closing) (·.map tree) := by
  intro c c' as ready h
  simp only [many, lifted_self, bind_ok, originOf_ok, parsing_inside, inside_ok, pure_ok] at h
  obtain ⟨t, c₁, opened, _, _, ⟨rfl, rfl⟩, a, c₂, first, as', c₃, rest, rfl, rfl⟩ := h
  have r₁ : Read const levels c c₁ (mark opening) [] := expect_reads ready opened
  have r₂ := reads (r₁.ready ready) first
  have r₃ := itemsUntil_reads reads closing (r₂.ready (r₁.ready ready)) rest
  simp only [row_cons, mul_assoc]
  exact r₁.trans (r₂.trans r₃)

omit reads in
/-- At least one item stands between marks. -/
theorem many_ne_nil {opening closing : Punctuator} {as : List α}
    (h : many opening closing item c = .ok (as, c')) : as ≠ [] := by
  simp only [many, lifted_self, bind_ok, originOf_ok, parsing_inside, inside_ok, pure_ok] at h
  obtain ⟨_, _, _, _, _, _, _, _, _, _, _, _, rfl, _⟩ := h
  simp

theorem optionalMany_reads (opening closing : Punctuator) :
    Reads const levels (optionalMany opening closing item) (block opening closing spelling)
      (·.map tree) := by
  intro c c' as ready h
  simp only [optionalMany, lifted_self, bind_ok, atMark_ok] at h
  obtain ⟨_, _, ⟨rfl, rfl⟩, h⟩ := h
  split at h
  · have read := many_reads reads opening closing ready h
    obtain ⟨a, as, rfl⟩ := List.exists_cons_of_ne_nil (many_ne_nil h)
    exact read
  · simp only [pure_ok] at h
    obtain ⟨rfl, rfl⟩ := h
    exact .refl c

theorem markedItems_reads (m : Punctuator) :
    Reads const levels (markedItems m item) (row fun a => mark m * spelling a) (·.map tree) := by
  apply collect_reads_row
  intro c c' o ready h
  simp only [lifted_self, bind_ok] at h
  obtain ⟨b, c₁, accepted, h⟩ := h
  rcases accept_reads const levels ready accepted with ⟨rfl, r⟩ | ⟨rfl, rfl⟩
  · simp only [↓reduceIte, bind_ok, pure_ok] at h
    obtain ⟨a, c₂, found, rfl, rfl⟩ := h
    exact r.trans (reads (r.ready ready) found)
  · simp only [Bool.false_eq_true, ↓reduceIte, pure_ok] at h
    obtain ⟨rfl, rfl⟩ := h
    exact .refl c

theorem separated_reads (m : Punctuator) :
    Reads const levels (Parser.separated m item) (Spelling.separated .free m spelling)
      (·.map tree) := by
  intro c c' as ready h
  simp only [Parser.separated, lifted_self, bind_ok, pure_ok] at h
  obtain ⟨b, c₁, accepted, a, c₂, first, as', c₃, rest, rfl, rfl⟩ := h
  have r₁ : Read const levels c c₁ (leading m .free) [] := by
    rcases accept_reads const levels ready accepted with ⟨-, r⟩ | ⟨-, rfl⟩
    · exact r.mono fun ks spelled => .inr spelled
    · exact (Read.refl c).mono fun ks spelled => .inl spelled
  have r₂ := reads (r₁.ready ready) first
  have r₃ := markedItems_reads reads m (r₂.ready (r₁.ready ready)) rest
  exact (r₁.trans r₂).trans r₃

omit reads in
theorem collect_items {step : Parser (Option α)} {as : List α}
    (h : collect step c = .ok (as, c')) :
    ∀ a ∈ as, ∃ c₀ c₁, step c₀ = .ok (some a, c₁) := by
  fun_induction collect step c generalizing as with
  | case1 c e hs => cases h
  | case2 c c₁ hs =>
    cases h
    simp
  | case3 c a c₁ hs shorter e hr => cases h
  | case4 c a c₁ hs shorter as' c₂ hr ih =>
    cases h
    intro b hb
    rcases List.mem_cons.mp hb with rfl | hb
    · exact ⟨c, c₁, hs⟩
    · exact ih hr b hb
  | case5 c a c₁ hs shorter =>
    cases h
    intro b hb
    rw [List.mem_singleton] at hb
    subst hb
    exact ⟨c, _, hs⟩

omit reads in
/-- Each thing in a list comes from a run of the parser of items. -/
theorem separated_items {m : Punctuator} {as : List α}
    (h : Parser.separated m item c = .ok (as, c')) :
    ∀ a ∈ as, ∃ c₀ c₁, item c₀ = .ok (a, c₁) := by
  simp only [Parser.separated, lifted_self, bind_ok, pure_ok] at h
  obtain ⟨b, c₁, accepted, a, c₂, first, as', c₃, rest, rfl, rfl⟩ := h
  intro x hx
  rcases List.mem_cons.mp hx with rfl | hx
  · exact ⟨c₁, c₂, first⟩
  · obtain ⟨c₀, c₄, round⟩ := collect_items rest x hx
    obtain ⟨b, c₅, -, round⟩ := bind_ok.mp round
    split at round
    · simp only [bind_ok, pure_ok, Option.some.injEq] at round
      obtain ⟨y, c₆, found, rfl, rfl⟩ := round
      exact ⟨c₅, c₆, found⟩
    · simp at round

omit reads in
theorem separated_ne_nil {m : Punctuator} {as : List α}
    (h : Parser.separated m item c = .ok (as, c')) : as ≠ [] := by
  simp only [Parser.separated, lifted_self, bind_ok, pure_ok] at h
  obtain ⟨_, _, _, _, _, _, _, _, _, rfl, _⟩ := h
  simp

end Lists

end GraphQL.Parser
