import GraphQL.Text.Decimal
import GraphQL.Text.Quoted
import Mathlib.Data.List.Forall2
import Mathlib.Data.List.TakeWhile
import Mathlib.Data.Nat.Digits.Defs
import Mathlib.Tactic.IntervalCases

/-! Numerals: the numbers that digits stand for, each by its place. The readers of decimal and of
hexadecimal digits come to these numbers. -/
namespace GraphQL.Text

/-- Some characters are the digits of a number to some base, with the highest place first. -/
def Writes (IsDigit : Char → Nat → Prop) (base : Nat) (cs : List Char) (n : Nat) : Prop :=
  ∃ digits, List.Forall₂ IsDigit cs digits ∧ n = Nat.ofDigits base digits.reverse

/-- The digits of decimal numbers. -/
def IsDecimalDigit (c : Char) (n : Nat) : Prop := "0123456789".toList[n]? = some c

/-- The digits of hexadecimal numbers, in either case. -/
def IsHexadecimalDigit (c : Char) (n : Nat) : Prop :=
  "0123456789abcdef".toList[n]? = some c ∨ "0123456789ABCDEF".toList[n]? = some c

instance (c : Char) (n : Nat) : Decidable (IsDecimalDigit c n) := inferInstanceAs (Decidable (_ = _))

instance (c : Char) (n : Nat) : Decidable (IsHexadecimalDigit c n) :=
  inferInstanceAs (Decidable (_ ∨ _))

/-- An integer in decimal digits, perhaps with a minus sign in front. -/
inductive WritesInteger : List Char → Int → Prop
  | plain {digits : List Char} {n : Nat} (h : Writes IsDecimalDigit 10 digits n) :
      WritesInteger digits n
  | minus {digits : List Char} {n : Nat} (h : Writes IsDecimalDigit 10 digits n) :
      WritesInteger ('-' :: digits) (-n)

variable {cs : List Char} {c : Char} {n : Nat}

/-- A fold over the digits comes to the number that they are. -/
theorem writes_iff {IsDigit : Char → Nat → Prop} {p : Char → Bool} {value : Char → Nat}
    (digit : ∀ c n, IsDigit c n ↔ p c = true ∧ n = value c) (base : Nat) :
    Writes IsDigit base cs n ↔
      (∀ c ∈ cs, p c = true) ∧ n = cs.foldl (fun n c => base * n + value c) 0 := by
  have number : Nat.ofDigits base (cs.map value).reverse =
      cs.foldl (fun n c => base * n + value c) 0 := by
    rw [Nat.ofDigits_eq_foldr, List.foldr_reverse, List.foldl_map]
    simp [Nat.add_comm]
  have values (digits : List Nat) :
      List.Forall₂ IsDigit cs digits ↔ (∀ c ∈ cs, p c = true) ∧ digits = cs.map value := by
    clear number
    induction cs generalizing digits with
    | nil => simp
    | cons c cs ih => cases digits <;> simp [ih, digit]; tauto
  constructor
  · rintro ⟨digits, same, rfl⟩
    obtain ⟨all, rfl⟩ := (values digits).mp same
    exact ⟨all, number⟩
  · rintro ⟨all, rfl⟩
    exact ⟨_, (values _).mpr ⟨all, rfl⟩, number.symm⟩

theorem isDecimalDigit_iff (c : Char) (n : Nat) :
    IsDecimalDigit c n ↔ isDigit c = true ∧ n = c.toNat - '0'.toNat := by
  constructor
  · intro h
    have few : n < 10 := (List.getElem?_eq_some_iff.mp h).1
    interval_cases n <;> (cases h; decide)
  · rintro ⟨digit, rfl⟩
    obtain ⟨least, most⟩ : 48 ≤ c.toNat ∧ c.toNat ≤ 57 := by
      simpa [isDigit, Char.le_def, UInt32.le_iff_toNat_le] using digit
    rw [← Char.ofNat_toNat c]
    interval_cases c.toNat <;> decide

theorem isHexadecimalDigit_iff (c : Char) (n : Nat) :
    IsHexadecimalDigit c n ↔ isHexDigit c = true ∧ n = hexDigit c := by
  constructor
  · rintro (h | h)
    all_goals
      have few : n < 16 := (List.getElem?_eq_some_iff.mp h).1
      interval_cases n <;> (cases h; decide)
  · rintro ⟨digit, rfl⟩
    have range : 48 ≤ c.toNat ∧ c.toNat ≤ 57 ∨ 97 ≤ c.toNat ∧ c.toNat ≤ 102 ∨
        65 ≤ c.toNat ∧ c.toNat ≤ 70 := by
      simpa [isHexDigit, isDigit, Char.le_def, UInt32.le_iff_toNat_le, or_assoc] using digit
    rw [← Char.ofNat_toNat c]
    rcases range with ⟨least, most⟩ | ⟨least, most⟩ | ⟨least, most⟩
    all_goals interval_cases c.toNat <;> decide

theorem writes_decimal_iff : Writes IsDecimalDigit 10 cs n ↔
    (∀ c ∈ cs, isDigit c = true) ∧ n = digitsValue cs :=
  writes_iff isDecimalDigit_iff 10

theorem writes_hexadecimal_iff : Writes IsHexadecimalDigit 16 cs n ↔
    (∀ c ∈ cs, isHexDigit c = true) ∧ n = hexValue cs :=
  writes_iff isHexadecimalDigit_iff 16

namespace Decimal

/-- Behind the sign, digits alone are read as their number. -/
theorem toInt_ofLiteral_of_splitSign {literal : List Char} {negative : Bool}
    (split : splitSign literal = (negative, cs)) (all : ∀ c ∈ cs, isDigit c = true) :
    (ofLiteral literal).toInt =
      if negative then -(digitsValue cs : Int) else (digitsValue cs : Int) := by
  simp [ofLiteral, split, List.takeWhile_eq_self_iff.mpr all, List.dropWhile_eq_nil_iff.mpr all,
    toInt, tenTo]

/-- A literal that is an integer is read as this integer. -/
theorem toInt_ofLiteral {n : Int} (h : WritesInteger cs n) : (ofLiteral cs).toInt = n := by
  cases h with
  | @plain digits n h =>
    obtain ⟨all, rfl⟩ := writes_decimal_iff.mp h
    have unsigned : splitSign cs = (false, cs) := by
      unfold splitSign
      split
      · exact absurd (all '-' List.mem_cons_self) (by decide)
      · rfl
    simpa using toInt_ofLiteral_of_splitSign unsigned all
  | @minus digits n h =>
    obtain ⟨all, rfl⟩ := writes_decimal_iff.mp h
    have signed : splitSign ('-' :: digits) = (true, digits) := rfl
    simpa using toInt_ofLiteral_of_splitSign signed all

/-- A numeral in the range of 32 bits is an integer of 32 bits. -/
theorem toInt32?_of_inRange {d : Decimal} (range : -2 ^ 31 ≤ d.toInt ∧ d.toInt ≤ 2 ^ 31 - 1) :
    ∃ x, d.toInt32? = some x ∧ x.toInt = d.toInt := by
  refine ⟨.ofInt d.toInt, if_pos range, Int32.toInt_ofInt_of_le range.1 ?_⟩
  have most := range.2
  omega

/-- One out of range is none. -/
theorem toInt32?_of_not_inRange {d : Decimal}
    (out : ¬ (-2 ^ 31 ≤ d.toInt ∧ d.toInt ≤ 2 ^ 31 - 1)) : d.toInt32? = none := if_neg out

end Decimal
end GraphQL.Text
