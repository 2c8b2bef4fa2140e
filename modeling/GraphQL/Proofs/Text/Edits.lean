import GraphQL.Text.Distance
import Mathlib.Order.MinMax

/-! Edits of words. The least cost of edits that make one word into another follows a recursion, and is a
distance between words. -/
namespace GraphQL.Text

/-- The Levenshtein distance of two words, by recursion: what is first in each is dropped, inserted or
changed, whichever is best. -/
def levenshtein : List Char → List Char → Nat
  | [], bs => bs.length
  | as, [] => as.length
  | a :: as, b :: bs =>
    min (min (levenshtein as (b :: bs) + 1) (levenshtein (a :: as) bs + 1))
      (levenshtein as bs + changeCost a b)

/-- One word becomes another by edits of its characters, one after the other, which cost so much. -/
inductive Edits : List Char → List Char → Nat → Prop
  | done : Edits [] [] 0
  | change (a b : Char) {as bs : List Char} {n : Nat} (later : Edits as bs n) :
    Edits (a :: as) (b :: bs) (n + changeCost a b)
  | drop (a : Char) {as bs : List Char} {n : Nat} (later : Edits as bs n) :
    Edits (a :: as) bs (n + 1)
  | insert (b : Char) {as bs : List Char} {n : Nat} (later : Edits as bs n) :
    Edits as (b :: bs) (n + 1)

section Cost

variable {a b c : Char}

@[simp] theorem changeCost_self : changeCost a a = 0 := if_pos rfl

theorem changeCost_comm : changeCost a b = changeCost b a := by
  simp only [changeCost, eq_comm]

theorem eq_of_changeCost (h : changeCost a b = 0) : a = b := by
  by_contra other
  simp [changeCost, other] at h

theorem changeCost_triangle : changeCost a c ≤ changeCost a b + changeCost b c := by
  by_cases same : a = b
  · subst same
    exact Nat.le_add_left _ _
  · have first : changeCost a b = 1 := if_neg same
    have most : changeCost a c ≤ 1 := by
      unfold changeCost
      split <;> decide
    omega

end Cost

namespace Edits

variable {as bs cs as' bs' : List Char} {m n : Nat}

theorem written (bs : List Char) : Edits [] bs bs.length := by
  induction bs with
  | nil => exact .done
  | cons b bs ih => exact .insert b ih

theorem symm (h : Edits as bs n) : Edits bs as n := by
  induction h with
  | done => exact .done
  | change a b later ih =>
    rw [changeCost_comm]
    exact .change b a ih
  | drop a later ih => exact .insert a ih
  | insert b later ih => exact .drop b ih

theorem refl (as : List Char) : Edits as as 0 := by
  induction as with
  | nil => exact .done
  | cons a as ih => simpa using ih.change a a

theorem eq_of_zero (h : Edits as bs 0) : as = bs := by
  generalize zero : 0 = n at h
  induction h with
  | done => rfl
  | change a b later ih =>
    obtain ⟨rfl, free⟩ := Nat.add_eq_zero_iff.mp zero.symm
    rw [ih rfl, eq_of_changeCost free]
  | drop a later ih => cases zero
  | insert b later ih => cases zero

theorem append (h : Edits as bs m) (h' : Edits as' bs' n) :
    Edits (as ++ as') (bs ++ bs') (m + n) := by
  induction h with
  | done => simpa using h'
  | change a b later ih =>
    rw [Nat.add_right_comm]
    exact ih.change a b
  | drop a later ih =>
    rw [Nat.add_right_comm]
    exact ih.drop a
  | insert b later ih =>
    rw [Nat.add_right_comm]
    exact ih.insert b

theorem reverse (h : Edits as bs n) : Edits as.reverse bs.reverse n := by
  induction h with
  | done => exact .done
  | change a b later ih =>
    rw [List.reverse_cons, List.reverse_cons]
    exact ih.append (by simpa using Edits.done.change a b)
  | drop a later ih =>
    have last := ih.append (.drop a .done)
    rwa [List.append_nil, ← List.reverse_cons] at last
  | insert b later ih =>
    have last := ih.append (.insert b .done)
    rwa [List.append_nil, ← List.reverse_cons] at last

/-- Edits of a word and then of what it has become are edits of the first word that cost no more. -/
theorem trans (h : Edits as bs m) (h' : Edits bs cs n) : ∃ k ≤ m + n, Edits as cs k := by
  induction h generalizing cs n with
  | done => exact ⟨n, Nat.le_add_left _ _, h'⟩
  | drop a later ih =>
    obtain ⟨k, le, edits⟩ := ih h'
    exact ⟨k + 1, by omega, edits.drop a⟩
  | change a b later ih =>
    -- What is inserted later stands in front of the character that has been changed.
    generalize whole : b :: _ = word at h'
    induction h' with
    | done => cases whole
    | change b' c later' =>
      cases whole
      obtain ⟨k, le, edits⟩ := ih later'
      have cost : changeCost a c ≤ changeCost a b + changeCost b c := changeCost_triangle
      exact ⟨k + changeCost a c, by omega, edits.change a c⟩
    | drop b' later' =>
      cases whole
      obtain ⟨k, le, edits⟩ := ih later'
      exact ⟨k + 1, by omega, edits.drop a⟩
    | insert c later' ih' =>
      obtain ⟨k, le, edits⟩ := ih' whole
      exact ⟨k + 1, by omega, edits.insert c⟩
  | insert b later ih =>
    generalize whole : b :: _ = word at h'
    induction h' with
    | done => cases whole
    | change b' c later' =>
      cases whole
      obtain ⟨k, le, edits⟩ := ih later'
      exact ⟨k + 1, by omega, edits.insert c⟩
    | drop b' later' =>
      cases whole
      obtain ⟨k, le, edits⟩ := ih later'
      exact ⟨k, by omega, edits⟩
    | insert c later' ih' =>
      obtain ⟨k, le, edits⟩ := ih' whole
      exact ⟨k + 1, by omega, edits.insert c⟩

end Edits

section Levenshtein

variable (as bs cs : List Char) (a b : Char)

@[simp] theorem levenshtein_nil_left : levenshtein [] bs = bs.length := by simp [levenshtein]

@[simp] theorem levenshtein_nil_right : levenshtein as [] = as.length := by
  cases as <;> simp [levenshtein]

theorem levenshtein_cons : levenshtein (a :: as) (b :: bs) =
    min (min (levenshtein as (b :: bs) + 1) (levenshtein (a :: as) bs + 1))
      (levenshtein as bs + changeCost a b) := by
  rw [levenshtein]

theorem levenshtein_drop : levenshtein (a :: as) bs ≤ levenshtein as bs + 1 := by
  induction bs generalizing as a with
  | nil => simp
  | cons b bs ih =>
    rw [levenshtein_cons]
    exact (Nat.min_le_left _ _).trans (Nat.min_le_left _ _)

theorem levenshtein_insert : levenshtein as (b :: bs) ≤ levenshtein as bs + 1 := by
  cases as with
  | nil => simp
  | cons a as =>
    rw [levenshtein_cons]
    exact (Nat.min_le_left _ _).trans (Nat.min_le_right _ _)

theorem edits_levenshtein : Edits as bs (levenshtein as bs) := by
  fun_induction levenshtein as bs with
  | case1 bs => exact .written bs
  | case2 as => exact (Edits.written as).symm
  | case3 a as b bs dropped inserted changed =>
    rcases min_choice (min (levenshtein as (b :: bs) + 1) (levenshtein (a :: as) bs + 1))
      (levenshtein as bs + changeCost a b) with least | least
    · rw [least]
      rcases min_choice (levenshtein as (b :: bs) + 1) (levenshtein (a :: as) bs + 1) with
        least | least
      · rw [least]
        exact dropped.drop a
      · rw [least]
        exact inserted.insert b
    · rw [least]
      exact changed.change a b

theorem Edits.levenshtein_le {n : Nat} (h : Edits as bs n) : levenshtein as bs ≤ n := by
  induction h with
  | done => simp
  | @change a b as bs n later ih =>
    rw [levenshtein_cons]
    exact (Nat.min_le_right _ _).trans (Nat.add_le_add_right ih _)
  | @drop a as bs n later ih =>
    exact (levenshtein_drop as bs a).trans (Nat.add_le_add_right ih 1)
  | @insert b as bs n later ih =>
    exact (levenshtein_insert as bs b).trans (Nat.add_le_add_right ih 1)

theorem levenshtein_comm : levenshtein as bs = levenshtein bs as :=
  Nat.le_antisymm (edits_levenshtein bs as).symm.levenshtein_le
    (edits_levenshtein as bs).symm.levenshtein_le

theorem levenshtein_eq_zero_iff : levenshtein as bs = 0 ↔ as = bs := by
  constructor
  · intro zero
    exact Edits.eq_of_zero (zero ▸ edits_levenshtein as bs)
  · rintro rfl
    exact Nat.le_zero.mp (Edits.refl as).levenshtein_le

theorem levenshtein_triangle : levenshtein as cs ≤ levenshtein as bs + levenshtein bs cs := by
  obtain ⟨k, le, edits⟩ := (edits_levenshtein as bs).trans (edits_levenshtein bs cs)
  exact edits.levenshtein_le.trans le

theorem levenshtein_reverse : levenshtein as.reverse bs.reverse = levenshtein as bs := by
  apply Nat.le_antisymm
  · exact (edits_levenshtein as bs).reverse.levenshtein_le
  · have back := (edits_levenshtein as.reverse bs.reverse).reverse
    rw [List.reverse_reverse, List.reverse_reverse] at back
    exact back.levenshtein_le

/-- The recursion may as well take characters from the ends of both words. -/
theorem levenshtein_concat : levenshtein (as ++ [a]) (bs ++ [b]) =
    min (min (levenshtein as (bs ++ [b]) + 1) (levenshtein (as ++ [a]) bs + 1))
      (levenshtein as bs + changeCost a b) := by
  rw [← levenshtein_reverse, List.reverse_concat, List.reverse_concat, levenshtein_cons]
  simp only [← List.reverse_concat, levenshtein_reverse]

end Levenshtein
end GraphQL.Text
