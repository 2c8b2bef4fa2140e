import GraphQL.Proofs.Nesting.Repetition
import GraphQL.Proofs.Scanner.Faults
import GraphQL.Proofs.Viable.Runs

/-! Where the errors of parsers lie: at the token that they stop at, or on the last ones before it. -/
namespace GraphQL

theorem Lexeme.IsLexical.not_isUnexpected {v : Violation} (h : IsLexical v) :
    ¬ v.IsUnexpected := by
  intro unexpected
  cases v with
  | unexpected => exact h
  | _ => exact unexpected

/-- How many of the tokens consumed last a violation is about. Those of none are about the token after
them. -/
def Violation.reach : Violation → Nat
  | .variable _ _ => 2
  | .string _ | .intRange _ | .floatRange _ | .reservedName _ _ | .unknownLocation _ | .description => 1
  | _ => 0

/-- Violations of tokens on their own, which are found once these have been consumed. -/
def Violation.IsLate (v : Violation) : Prop := 0 < v.reach ∧ v ≠ .description

theorem Violation.IsLate.other {v : Violation} (h : v.IsLate) :
    ¬ Lexeme.IsLexical v ∧ ¬ v.IsUnexpected := by
  obtain ⟨reach, -⟩ := h
  cases v with
  | string | intRange | floatRange | «variable» | reservedName | unknownLocation | description =>
    exact ⟨id, id⟩
  | _ => exact absurd reach (Nat.lt_irrefl 0)

/-- An error behind some tokens is about the token after them, or about the last ones of them. The
marks that it tells of are among them. -/
structure SyntaxError.Lies (e : SyntaxError) (ts : List Token) (d : Cursor) : Prop where
  grammatical : ¬ Lexeme.IsLexical e.violation
  misfit : e.violation.IsUnexpected → e.Misfit d
  ahead : e.violation.reach = 0 → e.origin = d.current.origin d.source
  behind : 0 < e.violation.reach → ∃ us vs, ts = us ++ vs ∧ vs.length = e.violation.reach ∧
    Origin.covering d.source vs = some e.origin
  unclosed : ∀ x ∈ e.unclosed, ∃ t ∈ ts, x.2 = t.origin d.source

/-- Something that can be described. -/
def TokenKind.IsDescribable (k : TokenKind) : Prop :=
  (DefinitionKeyword.ofToken? k).any (·.isDescribable) = true

/-- A run has the same error with some token after the one that the error is about. Only a faulty
string where a description can be is a description out of place if nothing describable comes after it. -/
def SyntaxError.Stays {α : Type} (e : SyntaxError) (t : Token) (x : Except SyntaxError α) : Prop :=
  x = .error e ∨ (∃ fault, e.violation = .string fault) ∧ ¬ t.kind.IsDescribable ∧
    x = .error ⟨.description, e.origin, []⟩

namespace SyntaxError

variable {e : SyntaxError} {ts us : List Token} {d : Cursor}

theorem Lies.behind_append (h : e.Lies ts d) (us : List Token) : e.Lies (us ++ ts) d where
  grammatical := h.grammatical
  misfit := h.misfit
  ahead := h.ahead
  behind reach := by
    obtain ⟨before, vs, rfl, length, covering⟩ := h.behind reach
    exact ⟨us ++ before, vs, by rw [List.append_assoc], length, covering⟩
  unclosed x hx := by
    obtain ⟨t, ht, origin⟩ := h.unclosed x hx
    exact ⟨t, List.mem_append_right _ ht, origin⟩

/-- An error tells of a mark that is the first token consumed. -/
theorem Lies.within {t : Token} (h : e.Lies ts d) (first : ts.head? = some t) (m : Punctuator) :
    (e.within m (t.origin d.source)).Lies ts d := by
  have mem : t ∈ ts := List.mem_of_head? first
  have keeps : (e.within m (t.origin d.source)).violation = e.violation ∧
      (e.within m (t.origin d.source)).origin = e.origin :=
    ⟨SyntaxError.violation_within, SyntaxError.origin_within⟩
  constructor
  case grammatical => exact keeps.1 ▸ h.grammatical
  case misfit => exact fun unexpected => (h.misfit (keeps.1 ▸ unexpected)).within m _
  case ahead => exact keeps.1 ▸ keeps.2 ▸ h.ahead
  case behind => exact keeps.1 ▸ keeps.2 ▸ h.behind
  case unclosed =>
    intro x hx
    unfold SyntaxError.within at hx
    split at hx
    · rcases List.mem_append.mp hx with hx | hx
      · exact h.unclosed x hx
      · rw [List.mem_singleton.mp hx]
        exact ⟨t, mem, rfl⟩
    · exact h.unclosed x hx

/-- What a late error is about has been consumed. -/
theorem Lies.ne_nil (h : e.Lies ts d) (late : e.violation.IsLate) : ts ≠ [] := by
  rintro rfl
  obtain ⟨us, vs, none, length, -⟩ := h.behind late.1
  obtain ⟨-, rfl⟩ := List.append_eq_nil_iff.mp none.symm
  exact late.1.ne length

/-- Errors at no token tell of no marks. -/
theorem within_eq_self {m : Punctuator} {o : Origin} (other : ¬ e.violation.IsUnexpected) :
    e.within m o = e := by
  unfold SyntaxError.within
  split
  · next violation => exact absurd (by rw [violation]; trivial) other
  · rfl

end SyntaxError

end GraphQL
