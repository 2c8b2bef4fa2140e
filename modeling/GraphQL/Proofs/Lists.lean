import Mathlib.Data.List.Basic
import Mathlib.Data.List.Induction
import Mathlib.Data.List.Nodup

/-! Lists: what is left of them without repetitions, and what sorting keeps of their order. -/
namespace GraphQL

section

variable {α : Type} [BEq α] [LawfulBEq α] {a : α}

theorem eraseDups_concat (as : List α) :
    (as ++ [a]).eraseDups = if a ∈ as.eraseDups then as.eraseDups else as.eraseDups ++ [a] := by
  rw [List.eraseDups_append]
  by_cases h : a ∈ as <;> simp [h, List.removeAll, List.eraseDups_cons]

theorem nodup_eraseDups (as : List α) : as.eraseDups.Nodup := by
  induction as using List.reverseRecOn with
  | nil => exact List.nodup_nil
  | append_singleton as a ih =>
    rw [eraseDups_concat]
    split
    · exact ih
    · next other => exact List.nodup_append_comm.mp (List.nodup_cons.mpr ⟨other, ih⟩)

/-- Without repetitions, items stand in the order in which each is met first. -/
theorem pairwise_eraseDups (as : List α) :
    as.eraseDups.Pairwise fun a b => as.idxOf a < as.idxOf b := by
  induction as using List.reverseRecOn with
  | nil => exact .nil
  | append_singleton as c ih =>
    have first : ∀ a ∈ as.eraseDups, (as ++ [c]).idxOf a = as.idxOf a := fun a inside =>
      List.idxOf_append_of_mem (List.mem_eraseDups.mp inside)
    have before : as.eraseDups.Pairwise fun a b => (as ++ [c]).idxOf a < (as ++ [c]).idxOf b :=
      ih.imp_of_mem fun {a b} ha hb less => by rwa [first a ha, first b hb]
    rw [eraseDups_concat]
    split
    · exact before
    · next other =>
      refine List.pairwise_append.mpr ⟨before, List.pairwise_singleton .., fun a ha b hb => ?_⟩
      obtain rfl := List.mem_singleton.mp hb
      rw [first a ha, List.idxOf_append_of_notMem (List.mem_eraseDups.not.mp other)]
      exact Nat.lt_add_right _ (List.idxOf_lt_length_of_mem (List.mem_eraseDups.mp ha))

end

theorem countP_concat {α : Type} (p : α → Bool) (as : List α) (a : α) :
    (as ++ [a]).countP p = as.countP p + (p a).toNat := by
  rw [List.countP_append, List.countP_singleton]
  cases p a <;> rfl

/-- What may fail for each item gives a list just if it fails for none. -/
theorem mapM_eq_ok_iff {α β ε : Type} {f : α → Except ε β} {as : List α} {bs : List β} :
    as.mapM f = .ok bs ↔ as.map f = bs.map .ok := by
  induction as generalizing bs with
  | nil => cases bs <;> simp [pure, Except.pure]
  | cons a as ih =>
    rw [List.mapM_cons, List.map_cons]
    cases first : f a with
    | error e => cases bs <;> simp [bind, Except.bind]
    | ok b =>
      cases later : as.mapM f with
      | error e =>
        have fails : ∀ cs : List β, as.map f ≠ cs.map .ok := fun cs same => by
          rw [ih.mpr same] at later
          cases later
        cases bs <;> simp [bind, Except.bind, fails]
      | ok cs => cases bs <;> simp [bind, Except.bind, pure, Except.pure, ← ih, later]

/-- Sorting puts items into order, and keeps any order that they had where they are equivalent. -/
theorem pairwise_mergeSort_stable {α : Type} (le : α → α → Bool) {R : α → α → Prop} {as : List α}
    (trans : ∀ a b c, le a b = true → le b c = true → le a c = true)
    (total : ∀ a b, (le a b || le b a) = true) (ordered : as.Pairwise R) :
    (as.mergeSort le).Pairwise fun a b => le a b = true ∧ (le b a = true → R a b) := by
  have sorted := List.pairwise_mergeSort (List.zipIdxLE_trans trans) (List.zipIdxLE_total total)
    as.zipIdx
  have distinct : (as.zipIdx.mergeSort (List.zipIdxLE le)).Nodup := by
    rw [(List.mergeSort_perm ..).nodup_iff]
    exact .of_map Prod.snd (by rw [List.zipIdx_map_snd]; exact List.nodup_range')
  rw [← List.mergeSort_zipIdx, List.pairwise_map]
  refine (sorted.and distinct).imp_of_mem fun {x y} hx hy ⟨le_xy, ne⟩ => ?_
  obtain ⟨a, i⟩ := x
  obtain ⟨b, j⟩ := y
  have at_i : as[i]? = some a := List.mem_zipIdx_iff_getElem?.mp (List.mem_mergeSort.mp hx)
  have at_j : as[j]? = some b := List.mem_zipIdx_iff_getElem?.mp (List.mem_mergeSort.mp hy)
  simp only [List.zipIdxLE] at le_xy
  split at le_xy
  · next le_ab =>
    refine ⟨le_ab, fun le_ba => ?_⟩
    rw [if_pos le_ba, decide_eq_true_iff] at le_xy
    have less : i < j := Nat.lt_of_le_of_ne le_xy fun same => by
      subst same
      rw [at_i, Option.some.injEq] at at_j
      exact ne (by rw [at_j])
    obtain ⟨hi, rfl⟩ := List.getElem?_eq_some_iff.mp at_i
    obtain ⟨hj, rfl⟩ := List.getElem?_eq_some_iff.mp at_j
    exact List.pairwise_iff_getElem.mp ordered i j hi hj less
  · cases le_xy

end GraphQL
