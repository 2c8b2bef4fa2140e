import GraphQL.Scanner.Lexeme

/-! A lexeme and the rest make up the text it was read from. -/
namespace GraphQL.Lexeme
open Text

@[simp] theorem whole_token (kind : TokenKind) (taken rest : List Char) :
    (token kind taken rest).whole = taken ++ rest := rfl

@[simp] theorem whole_fault (v : Violation) (taken rest : List Char) :
    (fault v taken rest).whole = taken ++ rest := rfl

theorem whole_dots (cs : List Char) : (dots cs).whole = '.' :: cs := by
  have h := List.takeWhile_append_dropWhile (p := isGap) (l := cs)
  unfold dots
  dsimp only
  split
  · next cs' hd =>
    have h' := List.takeWhile_append_dropWhile (p := isGap) (l := cs')
    rw [hd] at h
    split
    · next rest hr =>
      rw [hr] at h'
      split <;> simp only [whole_token, whole_fault, List.cons_append, List.append_assoc,
        List.nil_append, h', h]
    · simp only [whole_fault, List.cons_append, List.append_assoc, h', h]
  · simp [h]

theorem whole_name (c : Char) (cs : List Char) : (name c cs).whole = c :: cs := by
  simp [name]

theorem fraction_append {cs places rest : List Char} (h : fraction cs = .ok (places, rest)) :
    places ++ rest = cs := by
  unfold fraction at h
  split at h
  · next cs =>
    split at h
    · cases h
    · cases h; simp
  · cases h; rfl

theorem exponentSign_append (cs : List Char) : (exponentSign cs).1 ++ (exponentSign cs).2 = cs := by
  unfold exponentSign; split <;> rfl

theorem exponent_append {cs power rest : List Char} (h : exponent cs = .ok (power, rest)) :
    power ++ rest = cs := by
  unfold exponent at h
  split at h
  · cases h; rfl
  · next c cs =>
    have hs := exponentSign_append cs
    split at h
    · dsimp only at h
      split at h
      · cases h
      · cases h; simp [hs]
    · cases h; rfl

theorem numberTail_append {cs tail rest : List Char} (h : numberTail cs = .ok (tail, rest)) :
    tail ++ rest = cs := by
  unfold numberTail at h
  cases hf : fraction cs with
  | error e => simp [hf, bind, Except.bind] at h
  | ok p =>
    obtain ⟨places, mid⟩ := p
    cases he : exponent mid with
    | error e => simp [hf, he, bind, Except.bind] at h
    | ok q =>
      obtain ⟨power, last⟩ := q
      have hf' := fraction_append hf
      have he' := exponent_append he
      simp only [hf, he, bind, Except.bind] at h
      split at h
      · split at h
        · cases h
        · cases h; simp [he', hf']
      · cases h; rw [List.append_assoc, he', hf']

theorem minusSign_append (cs : List Char) : (minusSign cs).1 ++ (minusSign cs).2 = cs := by
  unfold minusSign; split <;> rfl

theorem whole_faultyNumber (reason : NumberFault) (cs : List Char) :
    (faultyNumber reason cs).whole = cs := by
  simp [faultyNumber]

theorem whole_number (cs : List Char) : (number cs).whole = cs := by
  have hs := minusSign_append cs
  have hd := List.takeWhile_append_dropWhile (p := isDigit) (l := (minusSign cs).2)
  unfold number
  dsimp only
  split
  · simpa using hs
  · exact whole_faultyNumber _ _
  · split
    · exact whole_faultyNumber _ _
    · next ht =>
      have ht' := numberTail_append ht
      simp [ht', hs]

theorem stringBody_append (cs : List Char) : (stringBody cs).1 ++ (stringBody cs).2 = cs := by
  fun_induction stringBody cs <;> simp_all

theorem whole_string (cs : List Char) : (string cs).whole = '"' :: cs := by
  have h := stringBody_append cs
  unfold string
  dsimp only
  split
  · next hr => rw [hr] at h; simpa using h
  · next hr => rw [hr] at h; simpa using h
  · next hr =>
    rw [hr] at h
    split
    · simpa using h
    · simpa [whole] using h

theorem blockBody_append (cs : List Char) : (blockBody cs).1 ++ (blockBody cs).2 = cs := by
  fun_induction blockBody cs <;> simp_all

theorem whole_blockString (cs : List Char) : (blockString cs).whole = '"' :: '"' :: '"' :: cs := by
  have h := blockBody_append cs
  unfold blockString
  dsimp only
  split
  · next hr => rw [hr] at h; simpa using h
  · next hr => rw [hr] at h; simpa using h
  · next hr => rw [hr] at h; simpa [whole] using h

theorem whole_anyString (cs : List Char) : (anyString cs).whole = '"' :: cs := by
  unfold anyString
  split
  · exact whole_blockString _
  · exact whole_string _

/-- Reading loses nothing: what stands before a fault, what is taken and the rest are the text. -/
theorem whole_read (c : Char) (cs : List Char) : (read c cs).whole = c :: cs := by
  unfold read
  split
  · rfl
  · split
    · next h => rw [beq_iff_eq] at h; subst h; exact whole_dots cs
    · split
      · next h => rw [beq_iff_eq] at h; subst h; exact whole_anyString cs
      · split
        · exact whole_name c cs
        · split
          · exact whole_number _
          · rfl

theorem taken_number_ne_nil {c : Char} {cs : List Char} (h : c = '-' ∨ isDigit c = true) :
    (number (c :: cs)).taken ≠ [] := by
  have part : isNumberPart c = true := by
    rcases h with rfl | h
    · decide
    · simp [isNumberPart, h]
  have faulty : ∀ reason, (faultyNumber reason (c :: cs)).taken ≠ [] := by
    intro reason; simp [faultyNumber, fault, part]
  unfold number
  dsimp only
  split
  · next hd =>
    rcases h with rfl | h
    · simp [minusSign, fault]
    · have : minusSign (c :: cs) = ([], c :: cs) := by
        unfold minusSign; split
        · next heq => cases heq; simp [isDigit] at h
        · rfl
      rw [this] at hd
      simp [h] at hd
  · exact faulty _
  · next hne _ =>
    split
    · exact faulty _
    · intro hc
      simp only [token, List.append_eq_nil_iff] at hc
      exact hne hc.1.2

/-- Every lexeme takes at least one character. -/
theorem taken_read_ne_nil (c : Char) (cs : List Char) :
    (read c cs).before ++ (read c cs).taken ≠ [] := by
  have body : ∀ {l : Lexeme}, l.taken ≠ [] → l.before ++ l.taken ≠ [] := by
    intro l h hc; exact h (List.append_eq_nil_iff.1 hc).2
  unfold read
  split
  · exact body (by simp [token])
  · split
    · apply body
      unfold dots
      dsimp only
      split
      · split
        · split <;> simp [token, fault]
        · simp [fault]
      · simp [fault]
    · split
      · unfold anyString
        split
        · unfold blockString; dsimp only
          split <;> simp [token, fault]
        · unfold string; dsimp only
          split
          · simp [fault]
          · simp [token]
          · split <;> simp [fault]
      · split
        · exact body (by simp [name, token])
        · split
          · next h =>
            apply body
            apply taken_number_ne_nil
            simpa using h
          · exact body (by simp [fault])

/-- The rest is shorter than the text. -/
theorem length_rest_read (c : Char) (cs : List Char) : (read c cs).rest.length ≤ cs.length := by
  have h := congrArg List.length (whole_read c cs)
  have h' := List.length_pos_iff.2 (taken_read_ne_nil c cs)
  simp only [whole, List.length_append, List.length_cons] at h h'
  omega

end GraphQL.Lexeme
