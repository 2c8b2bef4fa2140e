import GraphQL.Proofs.Rules
import GraphQL.Scanner.Tiling

/-! Tokens as they are written: what a lexeme takes from a text is the token that it becomes. -/
namespace GraphQL

/-- A token as it is written. The ends of the input are not written. -/
def TokenKind.written : TokenKind → String
  | .punctuator m => m.text
  | .name text => text
  | .int literal | .float literal | .string literal | .blockString literal => literal
  | .startOfInput | .endOfInput => ""

/-- The tokens that a text can have: not its ends, and as names only names. -/
structure TokenKind.IsWord (k : TokenKind) : Prop where
  notStart : k ≠ .startOfInput
  notEnd : k ≠ .endOfInput
  name : ∀ text, k = .name text → IsName text

namespace Lexeme

open Text

/-- A lexeme that is a token is the token as it is written. -/
def Exact (l : Lexeme) : Prop :=
  ∀ k, l.outcome = .ok k → k.IsWord ∧ l.before = [] ∧ l.taken = k.written.toList

theorem exact_fault (v : Violation) (taken rest : List Char) : (fault v taken rest).Exact := by
  intro k h
  cases h

theorem exact_token {k : TokenKind} {taken : List Char} (word : k.IsWord)
    (written : taken = k.written.toList) (rest : List Char) : (token k taken rest).Exact := by
  intro k' h
  cases h
  exact ⟨word, rfl, written⟩

/-- Tokens other than names keep their literal, whatever it is. -/
theorem exact_literal (sort : String → TokenKind) (taken rest : List Char)
    (written : ∀ text, (sort text).written = text)
    (word : ∀ text, (sort text).IsWord) :
    (token (sort (String.ofList taken)) taken rest).Exact :=
  exact_token (word _) (by simp [written]) rest

theorem exact_dots (cs : List Char) : (dots cs).Exact := by
  unfold dots
  dsimp only
  split
  · split
    · split
      · next empty =>
        simp only [Bool.and_eq_true, List.isEmpty_iff] at empty
        exact exact_token ⟨by simp, by simp, by simp⟩ (by rw [empty.1, empty.2]; rfl) _
      · exact exact_fault _ _ _
    · exact exact_fault _ _ _
  · exact exact_fault _ _ _

theorem exact_name {c : Char} (start : isNameStart c = true) (cs : List Char) :
    (name c cs).Exact := by
  have word : IsName (String.ofList (c :: cs.takeWhile isNameContinue)) := by
    refine ⟨c, _, String.toList_ofList, start, ?_⟩
    intro x hx
    exact List.all_eq_true.mp List.all_takeWhile x hx
  apply exact_token
  · exact ⟨by simp, by simp, by simpa using word⟩
  · simp [TokenKind.written]

theorem exact_number (cs : List Char) : (number cs).Exact := by
  unfold number
  dsimp only
  split
  · exact exact_fault _ _ _
  · exact exact_fault _ _ _
  · split
    · exact exact_fault _ _ _
    · split
      · exact exact_literal .int _ _ (fun _ => rfl) fun _ => ⟨by simp, by simp, by simp⟩
      · exact exact_literal .float _ _ (fun _ => rfl) fun _ => ⟨by simp, by simp, by simp⟩

theorem exact_anyString (cs : List Char) : (anyString cs).Exact := by
  unfold anyString
  split
  · unfold blockString
    dsimp only
    split
    · exact exact_literal .blockString _ _ (fun _ => rfl) fun _ => ⟨by simp, by simp, by simp⟩
    · exact exact_fault _ _ _
    · intro k h
      cases h
  · unfold string
    dsimp only
    split
    · exact exact_fault _ _ _
    · exact exact_literal .string _ _ (fun _ => rfl) fun _ => ⟨by simp, by simp, by simp⟩
    · split
      · exact exact_fault _ _ _
      · intro k h
        cases h

theorem text_of_mark? {c : Char} {m : Punctuator} (h : mark? c = some m) :
    [c] = m.text.toList := by
  unfold mark? at h
  split at h <;> cases h <;> rfl

theorem exact_read (c : Char) (cs : List Char) : (read c cs).Exact := by
  unfold read
  split
  · next m h => exact exact_token ⟨by simp, by simp, by simp⟩ (text_of_mark? h) cs
  · split
    · exact exact_dots cs
    · split
      · exact exact_anyString cs
      · split
        · next start => exact exact_name start cs
        · split
          · exact exact_number _
          · exact exact_fault _ _ _

end Lexeme
end GraphQL
