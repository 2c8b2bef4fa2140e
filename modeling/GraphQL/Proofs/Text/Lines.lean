import GraphQL.Proofs.Scanner.Positions

/-! Lines of a text, apart from how they are found: rows of characters with ends between them. Line
breaks are counted in the same way along a text, so that the line of a position is the line at its
number. -/
namespace GraphQL.Text

variable {line a b rest : List Char} {ls : List (List Char)}

/-- The ends that a line can have. -/
def lineEnds : List (List Char) := [['\n'], ['\r'], ['\r', '\n']]

/-- A text is made of lines with an end between each two of them. A carriage return in front of a
line feed is not an end by itself. -/
inductive IsLines : List Char → List (List Char) → Prop
  | last {line : List Char} (plain : ∀ c ∈ line, isTerminator c = false) : IsLines line [line]
  | next {line ending rest : List Char} {ls : List (List Char)}
      (plain : ∀ c ∈ line, isTerminator c = false) (listed : ending ∈ lineEnds)
      (whole : ending = ['\r'] → rest.head? ≠ some '\n') (later : IsLines rest ls) :
      IsLines (line ++ ending ++ rest) (line :: ls)

/-- What has no line end in it goes in front of the first line. -/
theorem lines_plain_append (plain : ∀ c ∈ line, isTerminator c = false) (rest : List Char) :
    lines (line ++ rest) = (lines rest).modifyHead (line ++ ·) := by
  induction line with
  | nil =>
    rw [List.nil_append]
    cases lines rest <;> rfl
  | cons c line ih =>
    rw [List.forall_mem_cons] at plain
    have no_return : c ≠ '\r' := by
      rintro rfl
      cases plain.1
    rw [List.cons_append, lines.eq_3 _ _ (fun _ h => absurd h no_return), plain.1,
      if_neg Bool.false_ne_true, ih plain.2, List.modifyHead_modifyHead]
    rfl

theorem lines_ending_append {ending : List Char} (listed : ending ∈ lineEnds)
    (whole : ending = ['\r'] → rest.head? ≠ some '\n') : lines (ending ++ rest) = [] :: lines rest := by
  simp only [lineEnds, List.mem_cons, List.not_mem_nil, or_false] at listed
  rcases listed with rfl | rfl | rfl
  · rw [List.singleton_append, lines.eq_3 _ _ (fun _ h => absurd h (by decide)), if_pos (by decide)]
  · rw [List.singleton_append, lines.eq_3 _ _ ?_, if_pos (by decide)]
    rintro later - rfl
    exact whole rfl rfl
  · rfl

theorem isLines_lines (cs : List Char) : IsLines cs (lines cs) := by
  fun_induction lines cs with
  | case1 => exact .last (by simp)
  | case2 cs ih =>
    have parts : IsLines ([] ++ ['\r', '\n'] ++ cs) ([] :: lines cs) :=
      .next (by simp) (by simp [lineEnds]) (by simp) ih
    exact parts
  | case3 c cs pair ends ih =>
    have parts (listed : [c] ∈ lineEnds) (whole : [c] = ['\r'] → cs.head? ≠ some '\n') :
        IsLines ([] ++ [c] ++ cs) ([] :: lines cs) := .next (by simp) listed whole ih
    refine parts ?_ ?_
    · simpa [isTerminator, lineEnds] using ends
    · intro carriage first
      obtain ⟨later, rfl⟩ := List.head?_eq_some_iff.mp first
      exact pair later (List.cons.inj carriage).1 rfl
  | case4 c cs pair plain ih =>
    rw [Bool.not_eq_true] at plain
    generalize lines cs = ls at ih
    cases ih with
    | last plain' => exact .last (List.forall_mem_cons.mpr ⟨plain, plain'⟩)
    | next plain' listed whole later =>
      exact .next (List.forall_mem_cons.mpr ⟨plain, plain'⟩) listed whole later

/-- A text has its lines and no others. -/
theorem isLines_iff {cs : List Char} : IsLines cs ls ↔ lines cs = ls := by
  constructor
  · intro h
    induction h with
    | @last line plain =>
      have all := lines_plain_append plain []
      rw [List.append_nil] at all
      rw [all]
      simp [lines]
    | @next line ending rest ls plain listed whole later ih =>
      rw [List.append_assoc, lines_plain_append plain, lines_ending_append listed whole, ih]
      simp
  · rintro rfl
    exact isLines_lines cs

theorem IsLines.ne_nil {cs : List Char} (h : IsLines cs ls) : ls ≠ [] := by
  cases h <;> simp

/-- Lines have no line ends in them. -/
theorem IsLines.plain {cs : List Char} (h : IsLines cs ls) :
    ∀ line ∈ ls, ∀ c ∈ line, isTerminator c = false := by
  induction h with
  | last plain => simpa using plain
  | next plain listed whole later ih => exact List.forall_mem_cons.mpr ⟨plain, ih⟩

theorem IsLines.mem_of_mem {cs : List Char} (h : IsLines cs ls) :
    ∀ line ∈ ls, ∀ c ∈ line, c ∈ cs := by
  induction h with
  | last plain => simp
  | next plain listed whole later ih =>
    rw [List.forall_mem_cons]
    exact ⟨fun c hc => by simp [hc], fun line mem c hc => List.mem_append_right _ (ih line mem c hc)⟩

/-- Lines joined by line feeds are the lines of a text. -/
theorem isLines_intercalate (ne : ls ≠ []) (plain : ∀ line ∈ ls, ∀ c ∈ line, isTerminator c = false) :
    IsLines (List.intercalate ['\n'] ls) ls := by
  induction ls with
  | nil => exact absurd rfl ne
  | cons line ls ih =>
    rw [List.forall_mem_cons] at plain
    cases ls with
    | nil => simpa using IsLines.last plain.1
    | cons next ls =>
      rw [List.intercalate_cons_cons]
      exact .next plain.1 (by simp [lineEnds]) (by simp) (ih (by simp) plain.2)

/-- Without carriage returns, a text is its lines joined by line feeds. -/
theorem IsLines.eq_intercalate {cs : List Char} (h : IsLines cs ls) (no_return : '\r' ∉ cs) :
    cs = List.intercalate ['\n'] ls := by
  induction h with
  | last plain => rw [List.intercalate_singleton]
  | @next line ending rest ls plain listed whole later ih =>
    simp only [List.mem_append, not_or] at no_return
    have feed : ending = ['\n'] := by
      simp only [lineEnds, List.mem_cons, List.not_mem_nil, or_false] at listed
      rcases listed with rfl | rfl | rfl
      · rfl
      all_goals simp at no_return
    obtain ⟨next, ls, rfl⟩ := List.exists_cons_of_ne_nil later.ne_nil
    rw [List.intercalate_cons_cons, feed, ih no_return.2]

theorem mem_of_mem_intercalate {c : Char} (h : c ∈ List.intercalate ['\n'] ls) :
    c = '\n' ∨ ∃ line ∈ ls, c ∈ line := by
  induction ls with
  | nil => simp [List.intercalate] at h
  | cons line ls ih =>
    cases ls with
    | nil => exact .inr ⟨line, by simpa using h⟩
    | cons next ls =>
      rw [List.intercalate_cons_cons, List.mem_append, List.mem_append, List.mem_singleton] at h
      rcases h with (inside | feed) | later
      · exact .inr ⟨line, List.mem_cons_self, inside⟩
      · exact .inl feed
      · exact (ih later).imp_right fun ⟨l, hl, inside⟩ => ⟨l, List.mem_cons_of_mem _ hl, inside⟩

/-! ### The line of a position -/

theorem breaks_plain_append (plain : ∀ c ∈ line, isTerminator c = false) (rest : List Char) :
    breaks (line ++ rest) = breaks rest := by
  induction line with
  | nil => rfl
  | cons c line ih =>
    rw [List.forall_mem_cons] at plain
    have no_return : c ≠ '\r' := by
      rintro rfl
      cases plain.1
    rw [List.cons_append, breaks.eq_3 _ _ (fun _ h => absurd h no_return), plain.1,
      if_neg Bool.false_ne_true, ih plain.2]

theorem breaks_ending_append {ending : List Char} (listed : ending ∈ lineEnds)
    (whole : ending = ['\r'] → rest.head? ≠ some '\n') :
    breaks (ending ++ rest) = breaks rest + 1 := by
  simp only [lineEnds, List.mem_cons, List.not_mem_nil, or_false] at listed
  rcases listed with rfl | rfl | rfl
  · rw [List.singleton_append, breaks.eq_3 _ _ (fun _ h => absurd h (by decide)), if_pos (by decide)]
  · rw [List.singleton_append, breaks.eq_3 _ _ ?_, if_pos (by decide)]
    rintro later - rfl
    exact whole rfl rfl
  · rfl

theorem lastLine_plain (plain : ∀ c ∈ line, isTerminator c = false) : lastLine line = line := by
  rw [lastLine, List.rtakeWhile_eq_self_iff]
  simpa using plain

/-- The last line is behind the last line end. -/
theorem lastLine_ending_append {ending : List Char} (listed : ending ∈ lineEnds)
    (line rest : List Char) : lastLine (line ++ ending ++ rest) = lastLine rest := by
  obtain ⟨before, c, rfl, ends⟩ : ∃ before c, ending = before ++ [c] ∧ isTerminator c = true := by
    simp only [lineEnds, List.mem_cons, List.not_mem_nil, or_false] at listed
    rcases listed with rfl | rfl | rfl
    · exact ⟨[], '\n', rfl, rfl⟩
    · exact ⟨[], '\r', rfl, rfl⟩
    · exact ⟨['\r'], '\n', rfl, rfl⟩
  induction rest using List.reverseRecOn with
  | nil => simp [lastLine, ends]
  | append_singleton rest d ih => rw [← List.append_assoc, lastLine_concat, lastLine_concat, ih]

theorem head?_lines (cs : List Char) :
    (lines cs)[0]? = some (cs.takeWhile (!isTerminator ·)) := by
  fun_induction lines cs with
  | case1 => rfl
  | case2 => rfl
  | case3 c cs pair ends ih => simp [ends]
  | case4 c cs pair plain ih =>
    rw [Bool.not_eq_true] at plain
    obtain ⟨first, later, same⟩ := List.exists_cons_of_ne_nil (lines_ne_nil cs)
    rw [same] at ih ⊢
    simp_all

/-- The line that the end of a text is on, if the text goes on: what stands after the last line break,
and all that follows up to the next line end. -/
theorem line?_breaks (seam : a.getLast? = some '\r' → b.head? ≠ some '\n') :
    line? (breaks a) (a ++ b) = some (lastLine a ++ b.takeWhile (!isTerminator ·)) := by
  have parts := isLines_lines a
  generalize lines a = ls at parts
  induction parts with
  | @last line plain =>
    have none := breaks_plain_append plain []
    rw [List.append_nil] at none
    have first := head?_lines b
    obtain ⟨l, later, same⟩ := List.exists_cons_of_ne_nil (lines_ne_nil b)
    rw [same] at first
    rw [none, lastLine_plain plain, line?, lines_plain_append plain, same]
    simpa [breaks] using first
  | @next line ending rest ls plain listed whole later ih =>
    have whole' : ending = ['\r'] → (rest ++ b).head? ≠ some '\n' := by
      rintro rfl
      cases rest with
      | nil => simpa using seam
      | cons c rest => simpa using whole rfl
    have seam' : rest.getLast? = some '\r' → b.head? ≠ some '\n' := by
      intro last
      refine seam ?_
      rw [List.getLast?_append, last]
      rfl
    have text : line ++ ending ++ rest ++ b = line ++ (ending ++ (rest ++ b)) := by simp
    have count : breaks (line ++ ending ++ rest) = breaks rest + 1 := by
      rw [List.append_assoc, breaks_plain_append plain, breaks_ending_append listed whole]
    rw [count, lastLine_ending_append listed, ← ih seam', line?, text, lines_plain_append plain,
      lines_ending_append listed whole']
    simp [line?]

/-- Breaks are counted part by part, unless one is cut in two. -/
theorem breaks_append (seam : a.getLast? = some '\r' → b.head? ≠ some '\n') :
    breaks (a ++ b) = breaks a + breaks b := by
  induction b using List.reverseRecOn with
  | nil => simp [breaks]
  | append_singleton b c ih =>
    have seam' : a.getLast? = some '\r' → b.head? ≠ some '\n' := by
      cases b with
      | nil => simp
      | cons d b => simpa using seam
    have last : c = '\n' ∧ (a ++ b).getLast? = some '\r' ↔ c = '\n' ∧ b.getLast? = some '\r' := by
      cases b with
      | nil => simpa using fun feed last => seam last (by simp [feed])
      | cons d b => simp [List.getLast?_append]
    rw [← List.append_assoc, breaks_concat, breaks_concat, ih seam']
    simp only [last]
    split <;> omega

theorem plain_of_breaks (none : breaks a = 0) : ∀ c ∈ a, isTerminator c = false := by
  fun_induction breaks a with
  | case1 => simp
  | case2 cs ih => cases none
  | case3 c cs pair ends ih => cases none
  | case4 c cs pair plain ih => exact List.forall_mem_cons.mpr ⟨by simpa using plain, ih none⟩

theorem lastLine_append_plain (plain : ∀ c ∈ b, isTerminator c = false) :
    lastLine (a ++ b) = lastLine a ++ b := by
  induction b using List.reverseRecOn with
  | nil => simp
  | append_singleton b c ih =>
    have ends : isTerminator c = false := plain c (by simp)
    rw [← List.append_assoc, lastLine_concat, ih fun d hd => plain d (by simp [hd]), ends]
    simp

/-- A text is what stands up to its last line break, and its last line. -/
theorem append_lastLine (a : List Char) :
    ∃ lead, a = lead ++ lastLine a ∧ ∀ c ∈ lead.getLast?, isTerminator c = true := by
  refine ⟨a.rdropWhile (!isTerminator ·), List.rdropWhile_append_rtakeWhile.symm, ?_⟩
  intro c hc
  obtain ⟨before, same⟩ := List.getLast?_eq_some_iff.mp hc
  have last := List.rdropWhile_last_not (!isTerminator ·) a (by simp [same])
  simpa [same] using last

end GraphQL.Text
