import GraphQL.Proofs.Transformer.Nodes
import GraphQL.Proofs.Walk.Orders
import GraphQL.Proofs.Walk.Tours

/-! All ways to go over a tree of nodes agree on the order of the nodes: preorder by their children.
-/
namespace GraphQL

/-- All ways to go over a node agree. There are walkers, visitors without decisions in a shared
walk, traversals that go down everywhere, visitors that are told contexts, and transformers that
change nothing. They all come to their end, and they come to the node and to all nodes below it in
preorder by the children of nodes. In a shared walk nodes are left in postorder. -/
theorem traversals_agree (n : Node) :
    n.tree.preorder = n :: (n.children.flatMap fun c => c.tree.preorder) ∧
      n.tree.postorder = (n.children.flatMap fun c => c.tree.postorder) ++ [n] ∧
      (∀ bound, 2 * n.tree.size ≤ bound →
        Walker.tourDown 0 bound (.start n.tree) = (Walker.start n.tree).tour) ∧
      n :: (Walker.start n.tree).tour.1.map Prod.snd = n.tree.preorder ∧
      (Walker.start n.tree).tour.2 = ⟨⟨n.tree, some n.children.length, none⟩, []⟩ ∧
      (∀ {δ σ ε : Type} (parts : List (Participant Node δ σ ε)), ∃ seats log outcome,
        walk n.tree (parts.zipIdx.map fun e => e.1.seat e.2) = (seats, log, .ok outcome) ∧
          ∀ p number, (p, number) ∈ parts.zipIdx → p.plan.Undecided →
            (seenBy number log).filterMap Event.visited? = n.tree.preorder ∧
              (seenBy number log).filterMap Event.left? = n.tree.postorder) ∧
      (∀ {δ σ ω : Type} (x : Descender Node δ σ ω) (data : δ) (own : σ) (bound : Nat),
        n.tree.size ≤ bound → ∃ result own', Traversal.traverse x.visit bound n.tree data
          (.start (own, [])) = .ok result (.start (own', n.tree.preorder))) ∧
      (∀ {δ σ : Type} (s : Schema) (d : Document) (data : δ) (c₀ : Context),
        ∃ calls : List (Contextual.Call Node δ),
          (calls.map fun call => call.tree.label) = n.tree.preorder ∧
            ∀ (inner : Contextual.Inner Node δ σ) (act : Contextual.Call Node δ → σ → σ) (own : σ),
              Contextual.Completes inner act →
                Contextual.walkFrom s d id inner n.tree data (.start ⟨c₀, own⟩) =
                  .ok () (.start ⟨c₀, calls.foldl (fun own call => act call own) own⟩)) ∧
      ∀ {m : Type → Type} [Monad m] [LawfulMonad m] (note : Node → m Unit) (r : Slot)
        (a : r.Syntax), r.Admits a → r.node a = n →
          (Transformer.noting note).step r a = do
            n.tree.preorder.forM note
            return none := by
  have children : n.tree.children.length = n.children.length := by
    rw [Node.children, List.length_map]
  have tour (bound : Nat) (enough : 2 * n.tree.size ≤ bound) :
      Walker.tourDown 0 bound (.start n.tree) = (Walker.start n.tree).tour := by
    rw [Walker.tourDown_start n.tree enough]
    exact (Walker.tourDown_start n.tree (Nat.le_refl _)).symm
  have toured := (tour _ (Nat.le_refl _)).symm.trans (Walker.tourDown_start n.tree (Nat.le_refl _))
  refine ⟨n.preorder_tree, n.postorder_tree, tour, ?_, ?_, fun parts => ?_,
    fun x data own bound fits => ?_,
    fun s d data c₀ => Contextual.walkFrom_calls s d id n.tree data c₀, fun note r a admits same => ?_⟩
  · rw [toured, Tree.map_snd_preorderDepthsOf, n.preorder_tree, n.tree_eq_children, Tree.children,
      Tree.preorderOf_eq_flatMap, List.flatMap_map]
  · rw [toured, children]
  · obtain ⟨seats, log, outcome, walked, seen⟩ := walk_seen n.tree parts
    refine ⟨seats, log, outcome, walked, fun p number listed undecided => ?_⟩
    rw [seen p number listed]
    exact (p.plan.walkTree_undecided undecided n.tree p.data p.own).2
  · exact x.traverse_tree n.tree data bound fits [] own []
  · rw [Transformer.step_noting note r a admits, same]

/-- The field `b: a(x: true)` with the field `c` below it. -/
def aliasedField : Field :=
  ⟨none, some ⟨none, "b"⟩, ⟨none, "a"⟩, [⟨none, ⟨none, "x"⟩, .boolean none true⟩], [],
    some ⟨none, [.field ⟨none, none, ⟨none, "c"⟩, [], [], none⟩]⟩⟩

/-- A participant that only looks on. -/
def onlooker : Participant Node Unit Unit Unit where
  visitor := ⟨fun _ _ => pure (), fun _ _ => pure ()⟩
  plan := ⟨fun _ _ _ => (.undecided, ()), fun _ _ _ => ()⟩
  follows :=
    ⟨fun _ _ _ c reports _ _ => ⟨c, reports, rfl, rfl⟩, fun _ _ _ _ reports _ => ⟨reports, rfl⟩⟩
  own := ()
  data := ()
  coordination := .new ()
  aborted := false
  skippingBelow := none
  free := rfl
  bottom := rfl

/-- The alias comes before the name, and arguments come before what is selected below. -/
theorem traversals_agree_aliased :
    let n : Node := .field aliasedField
    let labels (ns : List Node) : List String := ns.map (·.kind.label)
    let note (call : Contextual.Call Node Unit) (noted : List String) : List String :=
      noted ++ [call.tree.label.kind.label]
    let order := ["FieldSelection", "Name", "Name", "Argument", "Name", "BooleanValue",
      "SelectionSet", "FieldSelection", "Name"]
    labels n.tree.preorder = order ∧
      (Walker.tourDown 0 20 (.start n.tree)).2.depth = 0 ∧
      labels (n :: (Walker.tourDown 0 20 (.start n.tree)).1.map Prod.snd) = order ∧
      (∃ seats log outcome,
        walk n.tree [onlooker.seat 0, onlooker.seat 1] = (seats, log, .ok outcome) ∧
          labels ((seenBy 1 log).filterMap Event.visited?) = order ∧
          labels ((seenBy 1 log).filterMap Event.left?) = ["Name", "Name", "Name", "BooleanValue",
            "Argument", "Name", "FieldSelection", "SelectionSet", "FieldSelection"]) ∧
      (∃ noted result, labels noted = order ∧
        Traversal.traverse (Descender.visit ⟨fun _ _ own => own, fun _ depth _ => some (depth + 1),
            fun _ depth _ own => (depth, own)⟩) 9 n.tree 0 (.start ((), [])) =
          .ok result (.start ((), noted))) ∧
      Contextual.walkFrom (DocumentSchema.ofDocument ⟨none, []⟩).toSchema ⟨none, []⟩ id
          (fun t c data => modify (note ⟨t, c, data⟩)) n.tree () (.start ⟨.empty, []⟩) =
        .ok () (.start ⟨.empty, order⟩) ∧
      (Transformer.noting fun n => (modify (· ++ [n.kind.label]) : StateM (List String) Unit)).step
        .field aliasedField [] = (none, order) := by
  intro n labels note order
  obtain ⟨-, -, tour, toured, rest, walks, goes, calls, steps⟩ := traversals_agree n
  have listed : labels n.tree.preorder = order := by cbv
  have enough : 2 * n.tree.size ≤ 20 := by cbv
  refine ⟨listed, ?_, ?_, ?_, ?_, ?_, ?_⟩
  · rw [tour 20 enough, rest]
    rfl
  · rw [tour 20 enough, toured]
    exact listed
  · obtain ⟨seats, log, outcome, walked, seen⟩ := walks [onlooker, onlooker]
    obtain ⟨visited, left⟩ := seen onlooker 1 (by simp) fun _ _ _ => rfl
    refine ⟨seats, log, outcome, walked, ?_, ?_⟩
    · rw [visited]
      exact listed
    · rw [left]
      cbv
  · obtain ⟨result, _, went⟩ := goes ⟨fun _ _ own => own, fun _ depth _ => some (depth + 1),
      fun _ depth _ own => (depth, own)⟩ 0 () 9 (by cbv)
    exact ⟨n.tree.preorder, result, listed, went⟩
  · obtain ⟨calls, order', runs⟩ := calls (DocumentSchema.ofDocument ⟨none, []⟩).toSchema ⟨none, []⟩
      () .empty
    have noted : calls.foldl (fun noted call => note call noted) [] = order := by
      rw [← listed, ← order', ← List.flatMap_eq_foldl, ← List.map_eq_flatMap]
      simp only [labels, List.map_map, Function.comp_def]
    rw [← noted]
    exact runs _ note [] fun _ _ _ _ => rfl
  · rw [steps _ .field aliasedField trivial rfl]
    rfl

end GraphQL
