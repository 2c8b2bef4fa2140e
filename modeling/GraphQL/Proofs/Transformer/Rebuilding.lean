import GraphQL.Proofs.Transformer.Steps

/-! Copying what changes and copying everything: both make the same syntax. -/
namespace GraphQL
namespace Transformer

variable {m : Type → Type} [Monad m] [LawfulMonad m]

omit [LawfulMonad m] in
/-- What a transformer makes of syntax if every step copies its input, changed or not. -/
def rebuild (T : Transformer m) (r : Slot) (a : r.Syntax) : m r.Syntax := do
  let result ← T.hook r a do
    let rows ← (r.rows a).attach.mapM fun ⟨row, _⟩ => do
      return (⟨row.slot, ← row.items.attach.mapM fun ⟨b, _⟩ => T.rebuild row.slot b⟩ : Row)
    return some (r.withRows a rows)
  return result.applyTo a
termination_by r.size a
decreasing_by exact r.rows_below a row ‹_› b ‹_›

/-- A row of copies. -/
def rebuildRow (T : Transformer m) (row : Row) : m Row := do
  return ⟨row.slot, ← row.items.mapM fun b => T.rebuild row.slot b⟩

theorem rebuild_eq (T : Transformer m) (r : Slot) (a : r.Syntax) :
    T.rebuild r a = (do
      let result ← T.hook r a do return some (r.withRows a (← (r.rows a).mapM T.rebuildRow))
      return result.applyTo a) := by
  rw [rebuild]
  congr 2
  congr 1
  rw [List.mapM_subtype (g := T.rebuildRow), List.unattach_attach]
  intro row h
  dsimp only
  rw [rebuildRow, List.mapM_subtype (g := fun b => T.rebuild row.slot b), List.unattach_attach]
  intro b h
  rfl

theorem bind_mapM_congr {α β γ : Type} {f : α → m β} {as : List α} {k k' : List β → m γ}
    (h : ∀ bs, bs.length = as.length → k bs = k' bs) : as.mapM f >>= k = as.mapM f >>= k' := by
  induction as generalizing k k' with
  | nil => simpa using h [] rfl
  | cons a as ih =>
    simp only [List.mapM_cons, bind_assoc, pure_bind]
    congr
    funext b
    exact ih fun bs length => h (b :: bs) (by simp [length])

theorem bind_onRow_congr {γ : Type} {T : Transformer m} {rows : Rows}
    {k k' : List Answers → m γ}
    (h : ∀ answers, answers.map (·.row) = rows → k answers = k' answers) :
    rows.mapM T.onRow >>= k = rows.mapM T.onRow >>= k' := by
  induction rows generalizing k k' with
  | nil => simpa using h [] rfl
  | cons row rows ih =>
    simp only [List.mapM_cons, onRow, bind_assoc, pure_bind]
    congr
    funext cs
    exact ih fun answers rows => h (⟨row, cs⟩ :: answers) (by simp [rows])

theorem mapM_congr_mem {α β : Type} {f g : α → m β} {as : List α}
    (h : ∀ a ∈ as, f a = g a) : as.mapM f = as.mapM g := by
  induction as with
  | nil => rfl
  | cons a as ih =>
    rw [List.mapM_cons, List.mapM_cons, h a (by simp), ih fun b hb => h b (by simp [hb])]

theorem zipWith_mapM {α β γ : Type} (f : α → m β) (g : α → β → γ) (as : List α) :
    List.zipWith g as <$> as.mapM f = as.mapM fun a => g a <$> f a := by
  induction as with
  | nil => simp
  | cons a as ih => simp [← ih]

theorem map_mapM {α β γ : Type} (f : α → m β) (g : β → γ) (as : List α) :
    List.map g <$> as.mapM f = as.mapM fun a => g <$> f a := by
  induction as with
  | nil => simp
  | cons a as ih => simp [← ih]

/-- Hooks that do not tell an input that stays from a copy of it. -/
def Blind (T : Transformer m) : Prop :=
  ∀ (r : Slot) (a : r.Syntax) (x y : m (Replacement r.Syntax)),
    Replacement.applyTo a <$> x = Replacement.applyTo a <$> y →
      Replacement.applyTo a <$> T.hook r a x = Replacement.applyTo a <$> T.hook r a y

end Transformer

namespace Replacement

theorem applyTo_ofList {α : Type} {as : List α} {rs : List (Replacement α)}
    (h : rs.length = as.length) : (ofList as rs).applyTo as = List.zipWith applyTo as rs := by
  simp only [ofList]
  split
  next none =>
    induction as generalizing rs with
    | nil => simp
    | cons a as ih =>
      obtain ⟨r, rs, rfl⟩ := List.exists_cons_of_length_eq_add_one h
      simp only [noneOf, List.all_cons, Bool.and_eq_true, Option.isNone_iff_eq_none] at none
      obtain ⟨rfl, none⟩ := none
      simpa using ih (by simpa using h) none
  next => rfl

/-- What has been copied of the items in front becomes what is copied of one item more. -/
theorem push_ofList {α : Type} {front : List α} {rs : List (Replacement α)}
    (h : rs.length = front.length) (a : α) (r : Replacement α) :
    push front (ofList front rs) a r = ofList (front ++ [a]) (rs ++ [r]) := by
  have flags : noneOf (rs ++ [r]) = (noneOf rs && r.isNone) := by simp [noneOf]
  have others : List.zipWith applyTo (front ++ [a]) (rs ++ [r]) =
      List.zipWith applyTo front rs ++ [r.applyTo a] := List.zipWith_append h.symm
  have copied := applyTo_ofList h
  rw [ofList] at copied
  rw [ofList, ofList, flags, others, ← copied]
  cases noneOf rs <;> cases r <;> rfl

end Replacement

namespace Transformer

variable {m : Type → Type} [Monad m] [LawfulMonad m]

/-- The loop goes on from what has been copied of the items in front. -/
theorem foldlM_push {α : Type} (f : α → m (Replacement α)) (front rest : List α)
    (rs : List (Replacement α)) (h : rs.length = front.length) :
    (rest.zipIdx front.length).foldlM
        (fun copied (a, i) => return Replacement.push ((front ++ rest).take i) copied a (← f a))
        (Replacement.ofList front rs) =
      (do return Replacement.ofList (front ++ rest) (rs ++ (← rest.mapM f))) := by
  induction rest generalizing front rs with
  | nil => simp
  | cons a rest ih =>
    simp only [List.zipIdx_cons, List.foldlM_cons, List.mapM_cons, bind_assoc, pure_bind,
      List.take_left, Replacement.push_ofList h]
    refine bind_congr fun r => ?_
    have later := ih (front ++ [a]) (rs ++ [r]) (by simp [h])
    simpa using later

/-- The loop that copies from the first change on makes of a list what its items are replaced by. -/
theorem copyList_eq {α : Type} (f : α → m (Replacement α)) (as : List α) :
    copyList f as = onList f as :=
  foldlM_push f [] as [] rfl

/-- So it is with every row right below syntax: the loop copies it just if something in it changes. -/
theorem copyList_row (T : Transformer m) (row : Row) :
    Option.map (Row.mk row.slot) <$> copyList (T.step row.slot) row.items =
      (fun x : Answers => if x.unchanged then none else some x.applied) <$> T.onRow row := by
  rw [copyList_eq, onList, onRow, map_bind, map_bind]
  refine bind_congr fun changes => ?_
  rw [map_pure, map_pure]
  congr 1
  simp only [Answers.unchanged, Answers.applied, Replacement.ofList]
  cases Replacement.noneOf changes <;> rfl

end Transformer

namespace Answers

/-- Where nothing is replaced the row stays as it is. -/
theorem applied_of_unchanged {x : Answers} (h : x.unchanged) : x.applied = x.row := by
  simp only [unchanged] at h
  simp [applied, Replacement.ofList, h]

end Answers

theorem Slot.applyTo_patch (r : Slot) (a : r.Syntax) {answers : List Answers}
    (h : answers.map (·.row) = r.rows a) :
    (r.patch a answers).applyTo a = r.withRows a (answers.map (·.applied)) := by
  simp only [patch]
  split
  next unchanged =>
    have stays : answers.map (·.applied) = answers.map (·.row) :=
      List.map_congr_left fun x hx =>
        Answers.applied_of_unchanged (List.all_eq_true.mp unchanged x hx)
    rw [stays, h, r.withRows_rows, Replacement.applyTo_none]
  next => rfl

namespace Transformer

variable {m : Type → Type} [Monad m] [LawfulMonad m]

theorem applied_onRow {T : Transformer m} {row : Row}
    (h : ∀ b ∈ row.items, Replacement.applyTo b <$> T.step row.slot b = T.rebuild row.slot b) :
    Answers.applied <$> T.onRow row = T.rebuildRow row := by
  rw [rebuildRow, ← mapM_congr_mem h, ← zipWith_mapM]
  simp only [onRow, map_eq_pure_bind, bind_assoc, pure_bind]
  refine bind_mapM_congr fun cs length => ?_
  simp only [Answers.applied]
  rw [Replacement.applyTo_ofList length]

/-- Copying on change agrees with copying always. -/
theorem applyTo_step {T : Transformer m} (blind : T.Blind) (r : Slot) (a : r.Syntax) :
    Replacement.applyTo a <$> T.step r a = T.rebuild r a := by
  rw [step_eq, rebuild_eq, ← map_eq_pure_bind]
  refine blind r a _ _ ?_
  have rows : ∀ row ∈ r.rows a, Answers.applied <$> T.onRow row = T.rebuildRow row :=
    fun row hrow => applied_onRow fun b hb => applyTo_step blind row.slot b
  have copies : List.map Answers.applied <$> (r.rows a).mapM T.onRow =
      (r.rows a).mapM T.rebuildRow := by
    rw [map_mapM]
    exact mapM_congr_mem rows
  simp only [below, ← copies, map_eq_pure_bind, bind_assoc, pure_bind]
  refine bind_onRow_congr fun answers h => ?_
  rw [Slot.applyTo_patch r a h, Replacement.applyTo_some]
termination_by r.size a
decreasing_by exact r.rows_below a row hrow b hb

end Transformer

namespace Slot

theorem patch_eq_none (r : Slot) (a : r.Syntax) (answers : List Answers) :
    r.patch a answers = none ↔ ∀ x ∈ answers, ∀ c ∈ x.changes, c = none := by
  have unchanged (x : Answers) : x.unchanged ↔ ∀ c ∈ x.changes, c = none := by
    simp [Answers.unchanged, Replacement.noneOf]
  simp [patch, unchanged]

end Slot

/-- An answer for each item, of the sort that the slot is for. -/
structure Answers.Fits (x : Answers) : Prop where
  length : x.changes.length = x.row.items.length
  admits : ∀ a, some a ∈ x.changes → x.row.slot.Admits a

namespace Answers

variable {x : Answers}

theorem Fits.applied_eq (h : x.Fits) :
    x.applied = ⟨x.row.slot, List.zipWith Replacement.applyTo x.row.items x.changes⟩ := by
  rw [applied, Replacement.applyTo_ofList h.length]

theorem Fits.row (h : x.Fits) (old : ∀ b ∈ x.row.items, x.row.slot.Admits b) :
    x.applied.Fits x.row := by
  rw [h.applied_eq]
  refine ⟨rfl, by simp [h.length], fun a ha => ?_⟩
  rw [← List.map_uncurry_zip_eq_zipWith] at ha
  obtain ⟨⟨b, c⟩, hbc, rfl⟩ := List.mem_map.mp ha
  obtain ⟨hb, hc⟩ := List.of_mem_zip hbc
  cases c with
  | none => exact old b hb
  | some c => exact h.admits c hc

theorem applied_fit {answers : List Answers} (fits : ∀ x ∈ answers, x.Fits)
    (old : ∀ x ∈ answers, ∀ b ∈ x.row.items, x.row.slot.Admits b) :
    Rows.Fit (answers.map (·.applied)) (answers.map (·.row)) := by
  induction answers with
  | nil => exact .nil
  | cons x answers ih =>
    exact .cons ((fits x (by simp)).row (old x (by simp)))
      (ih (fun y hy => fits y (by simp [hy])) fun y hy => old y (by simp [hy]))

end Answers

theorem Slot.rows_patch (r : Slot) (a : r.Syntax) {answers : List Answers}
    (h : answers.map (·.row) = r.rows a) (fits : ∀ x ∈ answers, x.Fits) {b : r.Syntax}
    (hb : r.patch a answers = some b) :
    r.rows b = answers.map (·.applied) ∧ r.withRows b (r.rows a) = a := by
  have fit : Rows.Fit (answers.map (·.applied)) (r.rows a) := by
    rw [← h]
    exact Answers.applied_fit fits fun x hx =>
      r.rows_admits a x.row (h ▸ List.mem_map_of_mem hx)
  obtain rfl : r.withRows a (answers.map (·.applied)) = b := by
    simp only [patch] at hb
    split at hb <;> simp_all
  exact r.rows_replace a _ fit

namespace Transformer

variable {m : Type → Type} [Monad m] [LawfulMonad m]

/-- A transformer without hooks of its own keeps all syntax. -/
theorem step_children (r : Slot) (a : r.Syntax) :
    ({} : Transformer m).step r a = pure none := by
  have hook : ({} : Transformer m).hook r = Hook.children := by cases r <;> rfl
  have rows : ∀ row ∈ r.rows a, ({} : Transformer m).onRow row =
      pure ⟨row, row.items.map fun _ => none⟩ := by
    intro row hrow
    rw [onRow, mapM_congr_mem (g := fun _ => pure none) fun b hb => step_children row.slot b]
    simp
  rw [step_eq, hook, Hook.children, below, mapM_congr_mem rows, List.mapM_pure, pure_bind,
    (r.patch_eq_none a _).mpr]
  simp
termination_by r.size a
decreasing_by exact r.rows_below a row hrow b hb

/-- A transformer that copies only what changes makes of syntax what copying everything makes of
it. Its default step keeps the syntax if no part is replaced, and otherwise replaces those parts
and nothing else: the parts stand in the same rows, and with the old ones put back the syntax is
the old one. Without hooks all syntax stays. -/
theorem transform_exact (T : Transformer m) (r : Slot) (a : r.Syntax) :
    (T.Blind → Replacement.applyTo a <$> T.step r a = T.rebuild r a) ∧
    T.step r a = T.hook r a (do return r.patch a (← (r.rows a).mapM T.onRow)) ∧
    (∀ answers : List Answers, answers.map (·.row) = r.rows a → (∀ x ∈ answers, x.Fits) →
      (r.patch a answers = none ↔ ∀ x ∈ answers, ∀ c ∈ x.changes, c = none) ∧
      ∀ b, r.patch a answers = some b →
        r.rows b = answers.map (fun x =>
          ⟨x.row.slot, List.zipWith Replacement.applyTo x.row.items x.changes⟩) ∧
        r.withRows b (r.rows a) = a) ∧
    ({} : Transformer m).step r a = pure none := by
  refine ⟨fun blind => applyTo_step blind r a, step_eq T r a, fun answers h fits => ?_,
    step_children r a⟩
  refine ⟨r.patch_eq_none a answers, fun b hb => ?_⟩
  obtain ⟨rows, restored⟩ := r.rows_patch a h fits hb
  have applied : ∀ x ∈ answers, x.applied =
      ⟨x.row.slot, List.zipWith Replacement.applyTo x.row.items x.changes⟩ :=
    fun x hx => (fits x hx).applied_eq
  exact ⟨rows.trans (List.map_congr_left applied), restored⟩

/-- Counts names and puts a mark after each of them; copies directives. -/
def marking : Transformer (StateM Nat) where
  name n _ := do
    modify (· + 1)
    return some { n with value := n.value ++ "_" }
  directive d inner := do return some ((← inner).applyTo d)

theorem marking_blind : marking.Blind := by
  intro r a x y same
  cases r
  case name => rfl
  case directive =>
    have := congrArg (fun z => (fun d => d) <$> z) same
    simpa [marking, hook] using this
  all_goals exact same

/-- The argument `a: 1`, its parts, and the same with a mark after the name. -/
theorem transform_exact_argument :
    let a : Argument := ⟨none, ⟨none, "a"⟩, .int none 1⟩
    let b : Argument := ⟨none, ⟨none, "a_"⟩, .int none 1⟩
    let answers : List Answers :=
      [⟨.single .name a.name, [some b.name]⟩, ⟨.single .value a.value, [none]⟩]
    marking.Blind ∧
    Replacement.applyTo a <$> marking.step .argument a = marking.rebuild .argument a ∧
    marking.step .argument a 0 = (some b, 1) ∧
    Slot.patch .argument a answers = some b ∧
    Slot.rows .argument b = [.single .name b.name, .single .value b.value] ∧
    Slot.withRows .argument b (Slot.rows .argument a) = a := by
  intro a b answers
  obtain ⟨copies, -, parts, -⟩ := transform_exact marking .argument a
  have fits : ∀ x ∈ answers, x.Fits := by
    simp only [answers, List.mem_cons, List.not_mem_nil, or_false, forall_eq_or_imp, forall_eq]
    exact ⟨⟨rfl, fun _ _ => trivial⟩, ⟨rfl, fun _ _ => trivial⟩⟩
  have patch : Slot.patch .argument a answers = some b := rfl
  obtain ⟨rows, restored⟩ := (parts answers rfl fits).2 b patch
  exact ⟨marking_blind, copies marking_blind, rfl, patch, rows, restored⟩

end Transformer
end GraphQL
