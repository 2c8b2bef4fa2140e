import GraphQL.Ast.Equality
import GraphQL.Parser.Repetition
import GraphQL.Proofs.Parser.Faces

/-! Parsers give back what a spelling was made from, up to origins: the lists of the grammar. -/
namespace GraphQL

/-- Tokens that can stand in a text. -/
def AllWords (ks : List TokenKind) : Prop := ∀ k ∈ ks, k.IsWord

namespace AllWords

variable {k : TokenKind} {ks ls : List TokenKind}

@[simp] theorem nil : AllWords [] := by simp [AllWords]

@[simp] theorem cons_iff : AllWords (k :: ks) ↔ k.IsWord ∧ AllWords ks := by simp [AllWords]

@[simp] theorem append_iff : AllWords (ks ++ ls) ↔ AllWords ks ∧ AllWords ls := by
  simp [AllWords, or_imp, forall_and]

@[simp] theorem isWord_mark (m : Punctuator) : (TokenKind.punctuator m).IsWord :=
  ⟨by simp, by simp, by simp⟩

end AllWords

@[simp] theorem sameOrigin_false (a b : Option Origin) : sameOrigin false a b = true := rfl

@[simp] theorem same_list_nil {α : Type} [Comparable α] (origins : Bool) :
    same origins ([] : List α) [] = true := rfl

@[simp] theorem same_list_cons {α : Type} [Comparable α] (origins : Bool) (a b : α)
    (as bs : List α) : same origins (a :: as) (b :: bs) =
      (same origins a b && same origins as bs) := rfl

@[simp] theorem same_none {α : Type} [Comparable α] (origins : Bool) :
    same origins (none : Option α) none = true := rfl

@[simp] theorem same_some {α : Type} [Comparable α] (origins : Bool) (a b : α) :
    same origins (some a) (some b) = same origins a b := rfl

theorem Value.sameAll_eq_same (origins : Bool) (as bs : List Value) :
    Value.sameAll origins as bs = Comparable.same origins as bs := by
  induction as generalizing bs with
  | nil => cases bs <;> simp [Value.sameAll, Comparable.same]
  | cons a as ih =>
    cases bs with
    | nil => simp [Value.sameAll, Comparable.same]
    | cons b bs => simp [Value.sameAll, ih, Comparable.same, List.isEqv]

theorem ObjectField.sameAll_eq_same (origins : Bool) (as bs : List ObjectField) :
    ObjectField.sameAll origins as bs = Comparable.same origins as bs := by
  induction as generalizing bs with
  | nil => cases bs <;> simp [ObjectField.sameAll, Comparable.same]
  | cons a as ih =>
    cases bs with
    | nil => simp [ObjectField.sameAll, Comparable.same]
    | cons b bs => simp [ObjectField.sameAll, ih, Comparable.same, List.isEqv]

theorem Selection.sameAll_eq_same (origins : Bool) (as bs : List Selection) :
    Selection.sameAll origins as bs = Comparable.same origins as bs := by
  induction as generalizing bs with
  | nil => cases bs <;> simp [Selection.sameAll, Comparable.same]
  | cons a as ih =>
    cases bs with
    | nil => simp [Selection.sameAll, Comparable.same]
    | cons b bs => simp [Selection.sameAll, ih, Comparable.same, List.isEqv]

theorem SelectionSet.sameOptional_eq_same (origins : Bool) (a b : Option SelectionSet) :
    SelectionSet.sameOptional origins a b = Comparable.same origins a b := by
  cases a <;> cases b <;> simp [SelectionSet.sameOptional, Comparable.same]

namespace Parser

open Spelling

/-- What a spelling with a word in front starts with. -/
theorem kind_of_word {k : TokenKind} {later : Spelling} {ks rest : List TokenKind} {c : Cursor}
    (spelled : ks ∈ word k * later) (faces : c.Faces (ks ++ rest)) : c.current.kind = k := by
  rw [mem_word_mul] at spelled
  obtain ⟨tail, -, rfl⟩ := spelled
  exact faces.kind

/-- What starts with a word does not start with others. -/
theorem follows_word {k : TokenKind} {later : Spelling} {ks bad : List TokenKind}
    (spelled : ks ∈ word k * later) (free : k ∉ bad) : Follows bad ks := by
  rw [mem_word_mul] at spelled
  obtain ⟨tail, -, rfl⟩ := spelled
  exact Follows.cons_iff.mpr free

variable {α : Type} [Comparable α]

/-- The parser reads a thing from each of its spellings, if what follows is none of `bad`. -/
def Restores (p : Parser α) (bad : List TokenKind) (spelling : Spelling) (a : α) : Prop :=
  ∀ ⦃ks⦄, ks ∈ spelling → AllWords ks ∧
    ∀ ⦃c rest⦄, c.Faces (ks ++ rest) → Follows bad rest →
      ∃ a' c', p c = .ok (a', c') ∧ same false a' a = true ∧ c'.Faces rest

variable {item : Parser α} {spelling : α → Spelling} {bad : List TokenKind} {as : List α}
  {ks rest : List TokenKind} {c : Cursor}

theorem Restores.mono {bad' : List TokenKind} {first : Spelling} {a : α}
    (h : Restores item bad first a) (sub : ∀ k ∈ bad, k ∈ bad') : Restores item bad' first a := by
  intro ks spelled
  obtain ⟨words, run⟩ := h spelled
  exact ⟨words, fun c rest faces follow => run faces (follow.mono sub)⟩

theorem Restores.map {β : Type} [Comparable β] {f : α → β} {first : Spelling} {a : α}
    (h : Restores item bad first a)
    (keeps : ∀ a', same false a' a = true → same false (f a') (f a) = true) :
    Restores (f <$> item) bad first (f a) := by
  intro ks spelled
  obtain ⟨words, run⟩ := h spelled
  refine ⟨words, ?_⟩
  intro c rest faces follow
  obtain ⟨a', c', read, same_a, faces'⟩ := run faces follow
  exact ⟨f a', c', map_ok.mpr ⟨a', read, rfl⟩, keeps a' same_a, faces'⟩

omit [Comparable α] in
theorem words_row (words : ∀ a ∈ as, ∀ ks ∈ spelling a, AllWords ks)
    (spelled : ks ∈ row spelling as) : AllWords ks := by
  induction as generalizing ks with
  | nil =>
    cases (spelled : ks = [])
    exact .nil
  | cons a as ih =>
    rw [row_cons, Language.mem_mul] at spelled
    obtain ⟨first, spelled, later, others, rfl⟩ := spelled
    rw [List.forall_mem_cons] at words
    rw [AllWords.append_iff]
    exact ⟨words.1 first spelled, ih words.2 others⟩

omit [Comparable α] in
theorem words_maybe {o : Option α} (words : ∀ a ∈ o, ∀ ks ∈ spelling a, AllWords ks)
    (spelled : ks ∈ maybe spelling o) : AllWords ks := by
  cases o with
  | none =>
    cases (spelled : ks = [])
    exact .nil
  | some a => exact words a rfl ks spelled

/-- A loop gives back a row, if each round reads one item and a last round stops. -/
theorem collect_restores {step : Parser (Option α)} {last : List TokenKind}
    (rounds : ∀ a ∈ as, ∀ ks ∈ spelling a, Follows bad ks ∧
      ∀ c rest, c.Faces (ks ++ rest) → Follows bad rest →
        ∃ a' c', step c = .ok (some a', c') ∧ same false a' a = true ∧ c'.Faces rest)
    (stops : ∀ c, c.Faces (last ++ rest) → ∃ c', step c = .ok (none, c') ∧ c'.Faces rest)
    (spelled : ks ∈ row spelling as) (faces : c.Faces (ks ++ (last ++ rest)))
    (follow : Follows bad (last ++ rest)) :
    ∃ as' c', collect step c = .ok (as', c') ∧ same false as' as = true ∧ c'.Faces rest := by
  induction as generalizing ks c with
  | nil =>
    cases (spelled : ks = [])
    obtain ⟨c', stopped, faces'⟩ := stops c faces
    refine ⟨[], c', ?_, rfl, faces'⟩
    unfold collect
    simp [stopped]
  | cons a as ih =>
    rw [row_cons, Language.mem_mul] at spelled
    obtain ⟨first, spelled, later, others, rfl⟩ := spelled
    rw [List.append_assoc] at faces
    obtain ⟨begins, round⟩ := rounds a (by simp) first spelled
    have next : Follows bad (later ++ (last ++ rest)) := by
      refine .append (.row ?_ others) follow
      intro b hb ks spelled
      exact (rounds b (by simp [hb]) ks spelled).1.avoids
    obtain ⟨a', c₁, read, same_a, faces₁⟩ := round c _ faces next
    obtain ⟨as', c₂, looped, same_as, faces₂⟩ :=
      ih (fun b hb => rounds b (by simp [hb])) others faces₁
    refine ⟨a' :: as', c₂, ?_, by simp [same_a, same_as], faces₂⟩
    have shorter := faces.shorter faces₁ begins.ne_nil
    unfold collect
    simp [read, shorter, looped]

omit [Comparable α] in
/-- Items up to a mark start with one of the items or the mark. -/
theorem follows_itemsUntil {close : Punctuator}
    (begins : ∀ a ∈ as, ∀ ks ∈ spelling a, Follows (.punctuator close :: bad) ks)
    (closes : .punctuator close ∉ bad) (spelled : ks ∈ row spelling as * mark close) :
    Follows bad ks := by
  rw [mem_mul_word] at spelled
  obtain ⟨first, spelled, rfl⟩ := spelled
  refine .append (.row ?_ spelled) (Follows.cons_iff.mpr closes)
  intro a ha ks spelled
  have start : Follows bad ks := (begins a ha ks spelled).mono (by simp +contextual)
  exact start.avoids

section Marked

variable {opening close : Punctuator} (items : ∀ a ∈ as, Restores item bad (spelling a) a)
  (begins : ∀ a ∈ as, ∀ ks ∈ spelling a, Follows (.punctuator close :: bad) ks)
  (closes : .punctuator close ∉ bad)
include items begins closes

/-- Items up to a mark that none of them starts with. -/
theorem itemsUntil_restores :
    Restores (itemsUntil close item) [] (row spelling as * mark close) as := by
  intro ks spelled
  rw [mem_mul_word] at spelled
  obtain ⟨first, spelled, rfl⟩ := spelled
  have words : AllWords first := words_row (fun a ha _ spelled => (items a ha spelled).1) spelled
  refine ⟨by simp [words], ?_⟩
  intro c rest faces follow
  rw [List.append_assoc] at faces
  refine collect_restores ?_ ?_ spelled faces (Follows.cons_iff.mpr closes)
  · intro a ha ks spelled
    have start := begins a ha ks spelled
    refine ⟨start.mono (by simp +contextual), ?_⟩
    intro c rest faces follow
    obtain ⟨a', c', read, same_a, faces'⟩ := (items a ha spelled).2 faces follow
    have other : accept close c = .ok (false, c) :=
      accept_none faces (start.append_left rest) (by simp)
    refine ⟨a', c', ?_, same_a, faces'⟩
    rw [lifted_self, bind_eq other, if_neg (by simp), bind_eq read]
    rfl
  · intro c faces
    obtain ⟨c', closed, faces'⟩ := accept_faces faces follow.ne_nil
    refine ⟨c', ?_, faces'⟩
    rw [lifted_self, bind_eq closed, if_pos rfl]
    rfl

theorem any_restores :
    Restores (any opening close item) [] (mark opening * row spelling as * mark close) as := by
  intro ks spelled
  rw [mul_assoc, mem_word_mul] at spelled
  obtain ⟨later, spelled, rfl⟩ := spelled
  obtain ⟨words, run⟩ := itemsUntil_restores items begins closes spelled
  refine ⟨by simp [words], ?_⟩
  intro c rest faces follow
  obtain ⟨c₁, opened, faces₁⟩ := expect_faces faces (by simp [follow.ne_nil])
  obtain ⟨as', c₂, listed, same_as, faces₂⟩ := run faces₁ follow
  refine ⟨as', c₂, ?_, same_as, faces₂⟩
  simp only [any, lifted_self, parsing_inside]
  rw [bind_eq opened, originOf_bind]
  exact inside_eq listed

theorem many_restores (ne : as ≠ []) :
    Restores (many opening close item) [] (mark opening * row spelling as * mark close) as := by
  obtain ⟨a, as, rfl⟩ := List.exists_cons_of_ne_nil ne
  rw [List.forall_mem_cons] at items begins
  intro ks spelled
  rw [row_cons, mul_assoc, mul_assoc, mem_word_mul] at spelled
  obtain ⟨_, spelled, rfl⟩ := spelled
  rw [Language.mem_mul] at spelled
  obtain ⟨first, spelled, later, others, rfl⟩ := spelled
  obtain ⟨words, run⟩ := items.1 spelled
  obtain ⟨words', run'⟩ := itemsUntil_restores items.2 begins.2 closes others
  refine ⟨by simp [words, words'], ?_⟩
  intro c rest faces follow
  rw [List.cons_append, List.append_assoc] at faces
  have next : Follows bad (later ++ rest) :=
    (follows_itemsUntil begins.2 closes others).append_left rest
  obtain ⟨c₁, opened, faces₁⟩ := expect_faces faces (by simp [next.ne_nil])
  obtain ⟨a', c₂, read, same_a, faces₂⟩ := run faces₁ next
  obtain ⟨as', c₃, listed, same_as, faces₃⟩ := run' faces₂ follow
  refine ⟨a' :: as', c₃, ?_, by simp [same_a, same_as], faces₃⟩
  simp only [many, lifted_self, parsing_inside]
  rw [bind_eq opened, originOf_bind]
  apply inside_eq
  rw [bind_eq read, bind_eq listed]
  rfl

theorem optionalMany_restores :
    Restores (optionalMany opening close item) [.punctuator opening]
      (block opening close spelling as) as := by
  intro ks spelled
  cases as with
  | nil =>
    cases (spelled : ks = [])
    refine ⟨.nil, ?_⟩
    intro c rest faces follow
    have other : c.current.kind ≠ .punctuator opening := by
      simpa using faces.kind_notMem follow
    refine ⟨[], c, ?_, rfl, faces⟩
    rw [optionalMany, lifted_self, atMark_bind, if_neg (by simp [other])]
    rfl
  | cons a as =>
    obtain ⟨words, run⟩ := many_restores items begins closes (by simp) spelled
    refine ⟨words, ?_⟩
    intro c rest faces follow
    obtain ⟨as', c', listed, same_as, faces'⟩ := run faces (follow.mono (by simp))
    refine ⟨as', c', ?_, same_as, faces'⟩
    rw [block_cons, mul_assoc] at spelled
    have here := kind_of_word spelled faces
    rw [optionalMany, lifted_self, atMark_bind, if_pos (decide_eq_true here)]
    exact listed

end Marked

/-- Items that each start with a mark, as long as it follows. -/
theorem whileAt_restores {m : Punctuator} (items : ∀ a ∈ as, Restores item bad (spelling a) a)
    (begins : ∀ a ∈ as, ∀ ks ∈ spelling a, ∃ later, ks = .punctuator m :: later)
    (free : .punctuator m ∉ bad) :
    Restores (whileAt m item) (.punctuator m :: bad) (row spelling as) as := by
  intro ks spelled
  refine ⟨words_row (fun a ha _ spelled => (items a ha spelled).1) spelled, ?_⟩
  intro c rest faces follow
  have follow_items : Follows bad ([] ++ rest) := follow.mono (by simp +contextual)
  refine collect_restores ?_ ?_ spelled faces follow_items
  · intro a ha ks spelled
    obtain ⟨later, rfl⟩ := begins a ha ks spelled
    refine ⟨Follows.cons_iff.mpr free, ?_⟩
    intro c rest faces follow
    obtain ⟨a', c', read, same_a, faces'⟩ := (items a ha spelled).2 faces follow
    refine ⟨a', c', ?_, same_a, faces'⟩
    rw [lifted_self, atMark_bind, if_pos (decide_eq_true faces.kind), bind_eq read]
    rfl
  · intro c faces
    have other : c.current.kind ≠ .punctuator m := by
      intro same
      exact faces.kind_notMem follow (by simp [same])
    refine ⟨c, ?_, faces⟩
    rw [lifted_self, atMark_bind, if_neg (by simp [other])]
    rfl

theorem markedItems_restores {m : Punctuator} (items : ∀ a ∈ as, Restores item bad (spelling a) a)
    (free : .punctuator m ∉ bad) :
    Restores (markedItems m item) (.punctuator m :: bad) (row (fun a => mark m * spelling a) as)
      as := by
  intro ks spelled
  refine ⟨words_row ?_ spelled, ?_⟩
  · intro a ha ks spelled
    rw [mem_word_mul] at spelled
    obtain ⟨later, spelled, rfl⟩ := spelled
    simp [(items a ha spelled).1]
  · intro c rest faces follow
    have follow_items : Follows bad ([] ++ rest) := follow.mono (by simp +contextual)
    refine collect_restores ?_ ?_ spelled faces follow_items
    · intro a ha ks spelled
      rw [mem_word_mul] at spelled
      obtain ⟨later, spelled, rfl⟩ := spelled
      refine ⟨Follows.cons_iff.mpr free, ?_⟩
      intro c rest faces follow
      obtain ⟨c₁, accepted, faces₁⟩ := accept_faces faces (by simp [follow.ne_nil])
      obtain ⟨a', c₂, read, same_a, faces₂⟩ := (items a ha spelled).2 faces₁ follow
      refine ⟨a', c₂, ?_, same_a, faces₂⟩
      rw [lifted_self, bind_eq accepted, if_pos rfl, bind_eq read]
      rfl
    · intro c faces
      have other : accept m c = .ok (false, c) := accept_none faces follow (by simp)
      refine ⟨c, ?_, faces⟩
      rw [lifted_self, bind_eq other, if_neg (by simp)]
      rfl

omit [Comparable α] in
theorem words_leading {style : Style} {m : Punctuator} (spelled : ks ∈ leading m style) :
    AllWords ks := by
  cases style with
  | plain =>
    cases (spelled : ks = [])
    exact .nil
  | free =>
    rcases (Language.mem_add _ _ _).mp spelled with none | marked
    · cases (none : ks = [])
      exact .nil
    · simp [mem_word.mp marked]

omit [Comparable α] in
/-- A mark in front of a list is passed over if it is there. -/
theorem leading_faces {style : Style} {m : Punctuator} (spelled : ks ∈ leading m style)
    (faces : c.Faces (ks ++ rest)) (follow : Follows [.punctuator m] rest) :
    ∃ b c', accept m c = .ok (b, c') ∧ c'.Faces rest := by
  have missing (none : ks = []) : ∃ b c', accept m c = .ok (b, c') ∧ c'.Faces rest := by
    subst none
    exact ⟨false, c, accept_none faces follow (by simp), faces⟩
  cases style with
  | plain => exact missing spelled
  | free =>
    rcases (Language.mem_add _ _ _).mp spelled with none | marked
    · exact missing none
    · rw [mem_word.mp marked] at faces
      obtain ⟨c', accepted, faces'⟩ := accept_faces faces follow.ne_nil
      exact ⟨true, c', accepted, faces'⟩

/-- Items with a mark between them. -/
theorem separated_restores {style : Style} {m : Punctuator}
    (items : ∀ a ∈ as, Restores item bad (spelling a) a)
    (begins : ∀ a ∈ as, ∀ ks ∈ spelling a, Follows [.punctuator m] ks)
    (free : .punctuator m ∉ bad) (ne : as ≠ []) :
    Restores (Parser.separated m item) (.punctuator m :: bad)
      (Spelling.separated style m spelling as) as := by
  obtain ⟨a, as, rfl⟩ := List.exists_cons_of_ne_nil ne
  rw [List.forall_mem_cons] at items begins
  intro ks spelled
  rw [Spelling.separated, mul_assoc, Language.mem_mul] at spelled
  obtain ⟨front, led, _, spelled, rfl⟩ := spelled
  rw [Language.mem_mul] at spelled
  obtain ⟨first, spelled, later, others, rfl⟩ := spelled
  obtain ⟨words, run⟩ := items.1 spelled
  obtain ⟨words', run'⟩ := markedItems_restores items.2 free others
  refine ⟨by simp [words_leading led, words, words'], ?_⟩
  intro c rest faces follow
  rw [List.append_assoc, List.append_assoc] at faces
  have next : Follows bad (later ++ rest) := by
    refine .append (.row ?_ others) (follow.mono (by simp +contextual))
    intro b hb ks spelled
    rw [mem_word_mul] at spelled
    obtain ⟨later, -, rfl⟩ := spelled
    exact (Follows.cons_iff.mpr free).avoids
  obtain ⟨b, c₁, led, faces₁⟩ :=
    leading_faces led faces ((begins.1 first spelled).append_left _)
  obtain ⟨a', c₂, read, same_a, faces₂⟩ := run faces₁ next
  obtain ⟨as', c₃, listed, same_as, faces₃⟩ := run' faces₂ follow
  refine ⟨a' :: as', c₃, ?_, by simp [same_a, same_as], faces₃⟩
  simp only [Parser.separated, lifted_self]
  rw [bind_eq led, bind_eq read, bind_eq listed]
  rfl

end Parser
end GraphQL
