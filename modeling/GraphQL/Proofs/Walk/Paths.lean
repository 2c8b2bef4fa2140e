import GraphQL.Proofs.Walk.Stacks
import Mathlib.Data.List.Induction
import Mathlib.Data.List.Infix

/-! A walker stands at the end of a path from the root, at some place among the children there. -/
namespace GraphQL

variable {α : Type}

open Walker (Call)

/-- A place in a tree: the children gone down to on the way from the root, and the child reached
last among those there, or their number once all are passed. -/
structure Waypoint where
  path : List Nat
  index : Option Nat
  deriving DecidableEq

namespace Waypoint

/-- Before the first child of the root. -/
def start : Waypoint := ⟨[], none⟩

/-- The children at a place. -/
def row (root : Tree α) (p : Waypoint) : List (Tree α) := (root.at? p.path).elim [] (·.children)

/-- The child at a place, if one is reached and not passed. -/
def child (root : Tree α) (p : Waypoint) : Option (Tree α) := p.index.bind ((p.row root)[·]?)

/-- The next index. The end is not passed. -/
def next (root : Tree α) (p : Waypoint) : Waypoint :=
  { p with index := some (min (p.index.elim 0 (· + 1)) (p.row root).length) }

/-- One step further down, where there is a child. -/
def descend (root : Tree α) (p : Waypoint) : Waypoint :=
  match p.index with
  | some i => if i < (p.row root).length then ⟨p.path ++ [i], none⟩ else p
  | none => p

/-- The place where the path went down last. -/
def ascend (p : Waypoint) : Waypoint :=
  match p.path.getLast? with
  | some i => ⟨p.path.dropLast, some i⟩
  | none => p

/-- The place that a call leads to. -/
def move (root : Tree α) (p : Waypoint) : Call → Waypoint
  | .next => p.next root
  | .descend => p.descend root
  | .ascend => p.ascend

/-- The place that some calls lead to. -/
def after (root : Tree α) (p : Waypoint) (calls : List Call) : Waypoint := calls.foldl (move root) p

variable {root : Tree α} {p : Waypoint}

theorem descend_of_child_none (h : p.child root = none) : p.descend root = p := by
  rw [descend]
  cases index : p.index with
  | none => rfl
  | some i =>
    have passed : (p.row root)[i]? = none := by simpa [child, index] using h
    simpa using fun inside : i < (p.row root).length =>
      absurd (List.getElem?_eq_none_iff.mp passed) (Nat.not_le_of_lt inside)

theorem descend_of_child {t : Tree α} (h : p.child root = some t) :
    ∃ i, p.index = some i ∧ p.descend root = ⟨p.path ++ [i], none⟩ := by
  obtain ⟨i, index, reached⟩ := Option.bind_eq_some_iff.mp h
  obtain ⟨inside, -⟩ := List.getElem?_eq_some_iff.mp reached
  exact ⟨i, index, by rw [descend, index]; exact if_pos inside⟩

/-- There is no next child just if the end is reached. -/
theorem child_next_eq_none :
    (p.next root).child root = none ↔ (p.next root).index = some (p.row root).length := by
  have row : (p.next root).row root = p.row root := rfl
  rw [child, row, next, Option.bind_some, List.getElem?_eq_none_iff, Option.some_inj]
  omega

end Waypoint

theorem Tree.at?_append (t : Tree α) (path more : List Nat) :
    t.at? (path ++ more) = (t.at? path).bind (·.at? more) := by
  induction path generalizing t with
  | nil => rw [List.nil_append, Tree.at?_nil, Option.bind_some]
  | cons i path ih => simp only [List.cons_append, Tree.at?, ih, Option.bind_assoc]

/-- A level at the place of a child, none before the first and after the last. -/
def Level.reached (t : Tree α) (index : Option Nat) : Level α :=
  ⟨t, index, index.bind (t.children[·]?)⟩

namespace Walker

/-- A walker stands at a place. Each level above it stands where the path goes down. -/
inductive StandsAt (root : Tree α) : Waypoint → Walker α → Prop
  | top {index : Option Nat} (within : ∀ i ∈ index, i ≤ root.children.length) :
      StandsAt root ⟨[], index⟩ ⟨.reached root index, []⟩
  | deeper {path : List Nat} {i : Nat} {w : Walker α} {t : Tree α} {index : Option Nat}
      (above : StandsAt root ⟨path, some i⟩ w) (child : w.child = some t)
      (within : ∀ j ∈ index, j ≤ t.children.length) :
      StandsAt root ⟨path ++ [i], index⟩ ⟨.reached t index, w.here :: w.above⟩

variable {root : Tree α} {p : Waypoint} {w : Walker α} {t : Tree α}

/-! What going down and up comes to, by what there is to go to. -/

theorem ask_descend_none (h : w.child = none) :
    Call.descend.ask w = (.error (.noChild w.parent.label), w) := by
  have current : w.here.child = none := h
  simp [Call.ask, Walker.descend, current, Walker.parent]

theorem ask_descend_some (h : w.child = some t) :
    Call.descend.ask w = (.ok none, ⟨enter t, w.here :: w.above⟩) := by
  have current : w.here.child = some t := h
  simp [Call.ask, Walker.descend, current]

theorem ask_ascend_nil (h : w.above = []) : Call.ascend.ask w = (.error .atRoot, w) := by
  simp [Call.ask, Walker.ascend, h]

theorem ask_ascend_cons {l : Level α} {ls : List (Level α)} (h : w.above = l :: ls) :
    Call.ascend.ask w = (.ok none, ⟨l, ls⟩) := by
  simp [Call.ask, Walker.ascend, h]

namespace StandsAt

theorem here (h : StandsAt root p w) : w.here = .reached w.parent p.index := by
  cases h <;> rfl

theorem within (h : StandsAt root p w) : ∀ i ∈ p.index, i ≤ w.parent.children.length := by
  cases h with
  | top within => exact within
  | deeper _ _ within => exact within

theorem depth (h : StandsAt root p w) : w.depth = p.path.length := by
  induction h with
  | top => rfl
  | deeper above _ _ ih => simpa [Walker.depth] using ih

theorem parent (h : StandsAt root p w) : root.at? p.path = some w.parent := by
  induction h with
  | top => exact root.at?_nil
  | @deeper path i w t index above child within ih =>
    have last : w.parent.children[i]? = some t := by
      rw [← child, Walker.child, above.here]
      rfl
    rw [Tree.at?_append, ih, Option.bind_some, Tree.at?, last, Option.bind_some, Tree.at?_nil]
    rfl

theorem row (h : StandsAt root p w) : p.row root = w.parent.children := by
  rw [Waypoint.row, h.parent]
  rfl

theorem child (h : StandsAt root p w) : w.child = p.child root := by
  rw [Waypoint.child, h.row, Walker.child, h.here]
  rfl

/-- At the same path, a walker can stand at any index. -/
theorem atIndex (h : StandsAt root p w) {index : Option Nat}
    (within : ∀ i ∈ index, i ≤ w.parent.children.length) :
    StandsAt root { p with index } { w with here := .reached w.parent index } := by
  cases h with
  | top => exact .top within
  | deeper above child _ => exact .deeper above child within

/-- The end is stayed at: there is no child at the index behind it either. -/
theorem next (h : StandsAt root p w) : StandsAt root (p.next root) w.next := by
  have within : ∀ i ∈ (p.next root).index, i ≤ w.parent.children.length := by
    rintro i ⟨⟩
    rw [h.row]
    exact Nat.min_le_right ..
  have goes := h.atIndex within
  have same : w.next = { w with here := .reached w.parent (p.next root).index } := by
    have index : w.here.index = p.index := congrArg Level.index h.here
    have stays (i : Nat) : w.here.parent.children[i]? =
        w.here.parent.children[min i w.here.parent.children.length]? := by
      grind
    simp only [Walker.next, Level.reached, Waypoint.next, h.row, index, Option.bind_some,
      Walker.parent]
    cases p.index <;> simp [← stays]
  rw [same]
  exact goes

/-- From the end on, a walker stays. -/
theorem next_last (h : StandsAt root p w) (last : p.index = some w.parent.children.length) :
    w.next = w ∧ w.child = none := by
  have here := h.here
  rw [last] at here
  obtain ⟨⟨parent, index, child⟩, above⟩ := w
  change ⟨parent, index, child⟩ = Level.reached parent (some parent.children.length) at here
  cases here
  simp [Walker.next, Walker.child]

/-- A walker goes down where the path can be gone on with. -/
theorem descend (h : StandsAt root p w) :
    StandsAt root (p.descend root) (Call.descend.ask w).2 := by
  cases current : w.child with
  | none =>
    rw [ask_descend_none current, Waypoint.descend_of_child_none (h.child.symm.trans current)]
    exact h
  | some t =>
    obtain ⟨i, index, goes⟩ := Waypoint.descend_of_child (h.child.symm.trans current)
    obtain ⟨path, _⟩ := p
    cases index
    rw [ask_descend_some current, goes]
    exact .deeper h current (by simp)

theorem ascend (h : StandsAt root p w) : StandsAt root p.ascend (Call.ascend.ask w).2 := by
  cases h with
  | top within => exact .top within
  | @deeper path i w t index above child within =>
    simp only [Waypoint.ascend, List.getLast?_concat, List.dropLast_concat]
    exact above

theorem move (h : StandsAt root p w) (call : Call) :
    StandsAt root (p.move root call) (call.ask w).2 := by
  cases call with
  | next => exact h.next
  | descend => exact h.descend
  | ascend => exact h.ascend

/-- The walker and the place move together. -/
theorem after (h : StandsAt root p w) (calls : List Call) :
    StandsAt root (p.after root calls) (w.after calls) := by
  induction calls generalizing p w with
  | nil => exact h
  | cons call calls ih => exact ih (h.move call)

end StandsAt

/-- Calls that never lead further up than where they began leave the levels above as they are. -/
theorem above_after {calls : List Call}
    (deep : ∀ front, front <+: calls → w.depth ≤ (w.after front).depth) :
    w.above <:+ (w.after calls).above := by
  induction calls using List.reverseRecOn with
  | nil => exact List.suffix_refl _
  | append_singleton calls call ih =>
    have kept := ih fun front before => deep front (before.trans (List.prefix_append ..))
    have last := deep _ (List.prefix_refl _)
    rw [after_append, after_cons, after_nil] at last ⊢
    generalize w.after calls = v at kept last
    obtain ⟨⟨parent, index, child⟩, above⟩ := v
    cases call with
    | next => exact kept
    | descend =>
      cases child with
      | none => exact kept
      | some t => exact kept.trans (List.suffix_cons ..)
    | ascend =>
      cases above with
      | nil => exact kept
      | cons l ls =>
        -- The level gone up to is not one of those to be kept, or the calls had led too far up.
        rcases List.suffix_cons_iff.mp kept with all | rest
        · have fewer : w.above.length ≤ ls.length := last
          rw [all] at fewer
          exact absurd fewer (Nat.not_succ_le_self _)
        · exact rest

/-- Up again after going down: with calls in between that end where they began, and never lead
further up, the walker is what it was. -/
theorem after_descend_ascend {calls : List Call} (child : w.child = some t)
    (deep : ∀ front, front <+: calls →
      (w.after [.descend]).depth ≤ ((w.after [.descend]).after front).depth)
    (level : ((w.after [.descend]).after calls).depth = (w.after [.descend]).depth) :
    w.after (.descend :: calls ++ [.ascend]) = w := by
  have down : w.after [.descend] = ⟨enter t, w.here :: w.above⟩ := by
    rw [after_cons, ask_descend_some child, after_nil]
  have kept := (above_after deep).eq_of_length level.symm
  rw [down] at kept
  rw [List.cons_append, ← List.singleton_append, after_append, after_append, down, after_cons,
    ask_ascend_cons kept.symm, after_nil]

end Walker

namespace Stacks

/-- Stacks stand at a place: each is as high as the path is long, and what is current is what the
tree has there. -/
structure StandsAt (root : Tree α) (p : Waypoint) (s : Stacks α) : Prop where
  parents : s.savedParents.length = p.path.length
  rows : s.savedChildren.length = p.path.length
  indices : s.savedIndices.length = p.path.length
  reached : s.savedChild.length = p.path.length
  parent : root.at? p.path = some s.parent
  children : s.children = s.parent.children
  index : s.index = p.index
  child : s.child = p.child root
  within : ∀ i ∈ p.index, i ≤ s.children.length

/-- Calls that end as far down as they begin, and never lead further up. Calls that are refused do
not count. -/
structure Balanced (s : Stacks α) (calls : List Call) : Prop where
  deep : ∀ front, front <+: calls → s.depth ≤ (s.after front).depth
  level : (s.after calls).depth = s.depth

variable {root : Tree α} {p : Waypoint} {w : Walker α}

theorem standsAt_ofWalker (h : w.StandsAt root p) : (ofWalker w).StandsAt root p := by
  have length : w.above.length = p.path.length := h.depth
  exact {
    parents := (List.length_map ..).trans length
    rows := (List.length_map ..).trans length
    indices := (List.length_map ..).trans length
    reached := (List.length_map ..).trans length
    parent := h.parent
    children := rfl
    index := congrArg Level.index h.here
    child := h.child
    within := h.within }

end Stacks

/-- A walker goes along a path from the root, whatever it is asked, and its four stacks are as high
as the path is long. The next child is the one at the next index; from the end on there is none. Only
to go down without a child and to go up from the root is refused, and then all stays as it was. Going
up again after balanced calls undoes going down. -/
theorem walker_follows_path (root : Tree α) (calls : List Call) :
    let w := (Walker.start root).after calls
    let s := (Stacks.start root).after calls
    let p := Waypoint.start.after root calls
    s = .ofWalker w ∧ (∀ call : Call, (call.askStacks s).1 = (call.ask w).1) ∧ s.StandsAt root p ∧
      (Call.next.askStacks s).1 = .ok ((p.next root).child root) ∧
      ((p.next root).child root = none ↔ (p.next root).index = some s.children.length) ∧
      (p.index = some s.children.length → Call.next.askStacks s = (.ok none, s)) ∧
      (s.child = none → Call.descend.askStacks s = (.error (.noChild s.parent.label), s)) ∧
      (s.child ≠ none → (Call.descend.askStacks s).1 = .ok none) ∧
      (s.depth = 0 → Call.ascend.askStacks s = (.error .atRoot, s)) ∧
      (s.depth ≠ 0 → (Call.ascend.askStacks s).1 = .ok none) ∧
      ∀ between, s.child ≠ none → (s.after [.descend]).Balanced between →
        s.after (.descend :: between ++ [.ascend]) = s := by
  intro w s p
  have stands : w.StandsAt root p := (Walker.StandsAt.top (by simp)).after calls
  have same : s = .ofWalker w := Stacks.after_ofWalker (.start root) calls
  clear_value s
  subst same
  have children : (Stacks.ofWalker w).children = w.parent.children := rfl
  rw [children]
  refine ⟨rfl, fun call => by rw [Stacks.ask_ofWalker], Stacks.standsAt_ofWalker stands, ?_, ?_,
    fun last => ?_, fun none => ?_, fun some => ?_, fun top => ?_, fun deeper => ?_,
    fun between some balanced => ?_⟩
  · rw [Stacks.ask_ofWalker, ← stands.next.child]
    rfl
  · rw [← stands.row]
    exact Waypoint.child_next_eq_none
  · obtain ⟨stays, passed⟩ := stands.next_last last
    rw [Stacks.ask_ofWalker, Call.ask, stays, passed]
  · rw [Stacks.ask_ofWalker, Walker.ask_descend_none none]
    rfl
  · obtain ⟨t, child⟩ := Option.ne_none_iff_exists'.mp some
    rw [Stacks.ask_ofWalker, Walker.ask_descend_some child]
  · rw [Stacks.depth_ofWalker] at top
    rw [Stacks.ask_ofWalker, Walker.ask_ascend_nil (List.length_eq_zero_iff.mp top)]
  · rw [Stacks.depth_ofWalker] at deeper
    obtain ⟨l, ls, above⟩ := List.exists_cons_of_length_pos (Nat.pos_of_ne_zero deeper)
    rw [Stacks.ask_ofWalker, Walker.ask_ascend_cons above]
  · obtain ⟨t, child⟩ := Option.ne_none_iff_exists'.mp some
    obtain ⟨deep, level⟩ := balanced
    simp only [Stacks.after_ofWalker, Stacks.depth_ofWalker] at deep level
    rw [Stacks.after_ofWalker, Walker.after_descend_ascend child deep level]

/-- Below the first of two children, calls in between find an end and are refused twice. The walker
comes back to where the second child is next. -/
theorem walker_follows_path_resumed :
    let root : Tree Nat := .node 0 [.node 1 [.leaf 2], .leaf 3]
    let s := (Stacks.start root).after [.ascend, .next]
    let between : List Call := [.descend, .next, .descend, .next, .next, .descend, .ascend]
    s.child ≠ none ∧ (s.after [.descend]).Balanced between ∧
      s.after (.descend :: between ++ [.ascend]) = s ∧
        (Call.next.askStacks s).1 = .ok (some (.leaf 3)) := by
  intro root s between
  have child : s.child = some (.node 1 [.leaf 2]) := rfl
  have reached : s.child ≠ none := by rw [child]; exact Option.some_ne_none _
  have deep : ∀ front ∈ between.inits,
      (s.after [.descend]).depth ≤ ((s.after [.descend]).after front).depth := by decide
  have balanced : (s.after [.descend]).Balanced between :=
    ⟨fun front before => deep front ((List.mem_inits ..).mpr before), by decide⟩
  obtain ⟨-, -, -, next, -, -, -, -, -, -, restored⟩ := walker_follows_path root [.ascend, .next]
  exact ⟨reached, balanced, restored between reached balanced, next⟩

end GraphQL
