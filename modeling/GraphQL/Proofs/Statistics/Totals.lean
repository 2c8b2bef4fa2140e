import GraphQL.Proofs.Statistics.Definitions
import GraphQL.Proofs.Walk.Recorders

/-! Totals over documents: the two visitors that share the walks over them see every node of every
document, so that what they have collected in the end describes the documents. -/
namespace GraphQL

/-! ### Depths -/

namespace Tree

variable {α : Type}

theorem preorderDepthsOf_eq_flatMap (depth : Nat) (ts : List (Tree α)) :
    preorderDepthsOf depth ts = ts.flatMap (·.preorderDepths depth) := by
  induction ts with
  | nil => rfl
  | cons t ts ih => rw [preorderDepthsOf, ih, List.flatMap_cons]

/-- The nodes with their depths are those at the ends of the paths of these lengths. -/
theorem mem_preorderDepths {t : Tree α} {depth : Nat} {p : Nat × α} :
    p ∈ t.preorderDepths depth ↔
      ∃ path u, t.at? path = some u ∧ p = (depth + path.length, u.label) := by
  induction t using below_induction generalizing depth with
  | node a ts ih =>
    rw [preorderDepths, preorderDepthsOf_eq_flatMap, List.mem_cons, List.mem_flatMap]
    constructor
    · rintro (rfl | ⟨t, inside, below⟩)
      · exact ⟨[], .node a ts, rfl, rfl⟩
      · obtain ⟨path, u, found, rfl⟩ := (ih t inside).mp below
        obtain ⟨i, here⟩ := List.getElem?_of_mem inside
        refine ⟨i :: path, u, ?_, ?_⟩
        · rw [at?, children, here, Option.bind_some, found]
        · rw [List.length_cons, Nat.add_assoc, Nat.add_comm 1]
    · rintro ⟨path, u, found, rfl⟩
      cases path with
      | nil =>
        rw [at?_nil, Option.some.injEq] at found
        exact .inl (found ▸ rfl)
      | cons i path =>
        obtain ⟨t, here, found⟩ := Option.bind_eq_some_iff.mp found
        have inside := List.mem_of_getElem? here
        refine .inr ⟨t, inside, (ih t inside).mpr ⟨path, u, found, ?_⟩⟩
        rw [List.length_cons, Nat.add_assoc, Nat.add_comm 1]

end Tree

namespace Statistics

/-! ### The two visitors -/

/-- The visitor that counts nodes, as a recorder. -/
def counting : Recorder Node Nat Statistics Unit where
  visitor := counter
  choose _ := .undecided
  note n _ s := { s with census := s.census.noted n }
  follows := by
    constructor
    · intro t depth own c reports _ _
      refine ⟨c, reports, rfl, ?_⟩
      simp only [counter, VisitM.onOwn, modify, modifyGet, MonadStateOf.modifyGet,
        StateT.modifyGet, Plan.recording, Census.run_visit]
      rfl
    · exact fun _ _ _ _ reports _ => ⟨reports, rfl⟩
  goesOn _ := rfl
  root := 0
  own := empty

/-- The visitor that measures depths, as a recorder. -/
def measuring : Recorder Node Nat Statistics Unit where
  visitor := depthGauge
  choose depth := .visitWith (depth + 1)
  note _ depth s := { s with deepest := max s.deepest depth }
  follows := by
    constructor
    · intro t depth own c reports undecided _
      refine ⟨⟨.visiting, c.attached, (depth + 1) :: c.data⟩, reports, ?_, ?_⟩
      all_goals
        obtain ⟨state, attached, data⟩ := c
        cases undecided
        rfl
    · exact fun _ _ _ _ reports _ => ⟨reports, rfl⟩
  goesOn _ := rfl
  root := 0
  own := empty

theorem collectors_rest : List.Forall₂ Recorder.Rests [counting, measuring] collectors :=
  .cons counting.rests_new (.cons measuring.rests_new .nil)

/-- The data that come down to a node are its depth. -/
theorem dataAt_measuring (depth : Nat) : measuring.dataAt depth = depth := by
  induction depth with
  | zero => rfl
  | succ depth ih => rw [Recorder.dataAt_succ, ih]; rfl

/-- What the visitor that counts has seen in the end is the census of the nodes. -/
theorem census_seen (nodes : List (Nat × Node)) :
    (counting.seen nodes).own.census = Census.ofNodes (nodes.map Prod.snd) := by
  rw [Census.ofNodes, List.foldl_map]
  show census (nodes.foldl (fun s p => counting.note p.2 (counting.dataAt p.1) s) empty) = _
  exact (List.foldl_hom census fun _ _ => rfl).symm

/-- What the other one has measured in the end is the greatest depth. -/
theorem deepest_seen (nodes : List (Nat × Node)) :
    (measuring.seen nodes).own.deepest = (nodes.map Prod.fst).max?.getD 0 := by
  rw [← Nat.zero_max ((nodes.map Prod.fst).max?.getD 0), ← List.foldl_max, List.foldl_map]
  show deepest (nodes.foldl (fun s p => measuring.note p.2 (measuring.dataAt p.1) s) empty) = _
  refine (List.foldl_hom deepest fun s p => ?_).symm
  rw [dataAt_measuring]
  rfl

/-! ### Walks over documents -/

/-- After walks over documents the two have seen all nodes. -/
theorem survey_rests (ds : List Document) :
    List.Forall₂ Recorder.Rests ([counting, measuring].map
      (·.seen (ds.flatMap (·.tree.preorderDepths 0)))) (ds.foldl survey collectors) := by
  have present : [counting, measuring] ≠ [] := List.cons_ne_nil _ _
  have walked := walks_recorders present collectors_rest (ds.map (·.tree))
  rw [List.flatMap_map, walks, List.foldl_map] at walked
  exact walked

/-- A walk over one more document completes. -/
theorem survey_completes (ds : List Document) (d : Document) :
    (walk d.tree (ds.foldl survey collectors)).2.2 = .ok .completed :=
  (walk_recorders (List.cons_ne_nil _ _) (survey_rests ds) d.tree).1

/-- What two recorders give, once they have left their walks. -/
theorem ofSeats_rest {c m : Recorder Node Nat Statistics Unit}
    {seats : List (Seat Node Nat Statistics Unit)}
    (rest : List.Forall₂ Recorder.Rests [c, m] seats) : ofSeats seats = ⟨c.own.census, m.own.deepest⟩ := by
  cases rest with
  | cons counts rest =>
    cases rest with
    | cons measures rest =>
      cases rest
      simp only [ofSeats, List.map_cons, List.map_nil, counts.own, measures.own]

/-- The depths of the nodes of some documents. -/
def depths (ds : List Document) : List Nat :=
  (ds.flatMap (·.tree.preorderDepths 0)).map Prod.fst

theorem ofDocuments_eq (ds : List Document) :
    ofDocuments ds =
      ⟨Census.ofNodes (ds.flatMap (·.tree.preorder)), (depths ds).max?.getD 0⟩ := by
  have nodes : (ds.flatMap (·.tree.preorderDepths 0)).map Prod.snd =
      ds.flatMap (·.tree.preorder) := by
    rw [List.map_flatMap]
    simp only [Tree.map_snd_preorderDepths]
  rw [ofDocuments, ofSeats_rest (survey_rests ds), census_seen, deepest_seen, nodes, depths]

/-- The depths are the lengths of the paths in the documents. -/
theorem mem_depths {ds : List Document} {n : Nat} :
    n ∈ depths ds ↔ ∃ d ∈ ds, ∃ path t, d.tree.at? path = some t ∧ path.length = n := by
  simp only [depths, List.mem_map, List.mem_flatMap, Tree.mem_preorderDepths, Nat.zero_add]
  constructor
  · rintro ⟨_, ⟨d, inside, path, t, found, rfl⟩, rfl⟩
    exact ⟨d, inside, path, t, found, rfl⟩
  · rintro ⟨d, inside, path, t, found, rfl⟩
    exact ⟨_, ⟨d, inside, path, t, found, rfl⟩, rfl⟩

/-- The sorts of the nodes of some documents, each document in preorder. -/
def kinds (ds : List Document) : List Kind := (ds.flatMap (·.tree.preorder)).map (·.kind)

/-- Statistics that are exact for some documents. -/
structure Describes (s : Statistics) (ds : List Document) : Prop where
  /-- Every sort that there is has one entry, with the number of its nodes. -/
  counts : s.census.counts = (kinds ds).eraseDups.map fun k => (k, (kinds ds).count k)
  /-- Entries are told apart by their labels. -/
  labels : (s.census.counts.map (·.1.label)).Nodup
  total : s.census.total = (ds.flatMap (·.tree.preorder)).length
  executable : s.census.executable = (ds.flatMap (·.definitions)).countP (·.isExecutable)
  typeSystem : s.census.typeSystem = (ds.flatMap (·.definitions)).countP (!·.isExecutable)
  definitions : s.census.executable + s.census.typeSystem = (ds.flatMap (·.definitions)).length
  /-- No node is farther from its document. -/
  within : ∀ d ∈ ds, ∀ path t, d.tree.at? path = some t → path.length ≤ s.deepest
  /-- Some node is that far from its document. -/
  reached : ds ≠ [] → ∃ d ∈ ds, ∃ path t, d.tree.at? path = some t ∧ path.length = s.deepest
  nothing : ds = [] → s.deepest = 0
  permuted : s.census.sortedCounts.Perm s.census.counts
  /-- The higher counts come first, and of equal ones that of the sort that was seen first. -/
  sorted : s.census.sortedCounts.Pairwise fun p q =>
    q.2 < p.2 ∨ p.2 = q.2 ∧ (kinds ds).idxOf p.1 < (kinds ds).idxOf q.1

/-- What holds of the groups of definitions in each document holds of them in all. -/
theorem countP_nodes {p : Node → Bool} {q : Definition → Bool}
    (each : ∀ d : Document, d.tree.preorder.countP p = d.definitions.countP q)
    (ds : List Document) :
    (ds.flatMap (·.tree.preorder)).countP p = (ds.flatMap (·.definitions)).countP q := by
  simp only [List.countP_flatMap, Function.comp_def, each]

theorem describes_ofDocuments (ds : List Document) : (ofDocuments ds).Describes ds := by
  rw [ofDocuments_eq]
  have counts := Census.counts_ofNodes (ds.flatMap (·.tree.preorder))
  have executable := (Census.executable_ofNodes (ds.flatMap (·.tree.preorder))).trans
    (countP_nodes Document.countP_executable ds)
  have typeSystem := (Census.typeSystem_ofNodes (ds.flatMap (·.tree.preorder))).trans
    (countP_nodes Document.countP_typeSystem ds)
  constructor
  case counts => exact counts
  case labels =>
    rw [counts, Census.tally, List.map_map]
    exact (nodup_eraseDups (kinds ds)).map Kind.label_injective
  case total => exact Census.total_ofNodes _
  case executable => exact executable
  case typeSystem => exact typeSystem
  case definitions =>
    rw [executable, typeSystem, List.length_eq_countP_add_countP (·.isExecutable)]
    simp
  case within =>
    intro d inside path t found
    exact List.le_max?_getD_of_mem (mem_depths.mpr ⟨d, inside, path, t, found, rfl⟩)
  case reached =>
    intro present
    obtain ⟨d, ds, rfl⟩ := List.exists_cons_of_ne_nil present
    apply mem_depths.mp
    cases greatest : (depths (d :: ds)).max? with
    | none =>
      have root : 0 ∈ depths (d :: ds) :=
        mem_depths.mpr ⟨d, List.mem_cons_self, [], d.tree, d.tree.at?_nil, rfl⟩
      rw [List.max?_eq_none_iff.mp greatest] at root
      cases root
    | some n => exact List.max?_mem greatest
  case nothing =>
    rintro rfl
    rfl
  case permuted => exact List.mergeSort_perm ..
  case sorted => exact Census.sortedCounts_pairwise counts

/-- Statistics are exact. Whatever documents are walked over one after the other, each walk
completes, and what has been collected in the end is what there is in the documents. -/
theorem statistics_exact (ds : List Document) :
    (∀ before d later, ds = before ++ d :: later →
      (walk d.tree (before.foldl survey collectors)).2.2 = .ok .completed) ∧
    (ofDocuments ds).Describes ds :=
  ⟨fun before d _ _ => survey_completes before d, describes_ofDocuments ds⟩

/-- A query for fields with some names, and no more. -/
def shortQuery (names : List String) : Document :=
  let fields := names.map fun name => Selection.field ⟨none, none, ⟨none, name⟩, [], [], none⟩
  ⟨none, [.operation ⟨none, .query, none, [], [], ⟨none, fields⟩⟩]⟩

/-- A query for one field, and another for two. -/
def twoQueries : List Document := [shortQuery ["a"], shortQuery ["b", "c"]]

/-- The walk over the second query completes like the first one, and adds to the numbers. -/
theorem statistics_exact_two_queries :
    (walk (shortQuery ["b", "c"]).tree ([shortQuery ["a"]].foldl survey collectors)).2.2 =
        .ok .completed ∧
      (ofDocuments twoQueries).Describes twoQueries ∧
      (ofDocuments twoQueries).census.counts =
        [(.document, 2), (.operation, 2), (.selectionSet, 2), (.field, 3), (.name, 3)] ∧
      (ofDocuments twoQueries).census.total = 12 ∧
      (ofDocuments twoQueries).census.executable = 2 ∧
      (ofDocuments twoQueries).census.typeSystem = 0 ∧ (ofDocuments twoQueries).deepest = 4 := by
  obtain ⟨completes, describes⟩ := statistics_exact twoQueries
  have completed := completes [shortQuery ["a"]] (shortQuery ["b", "c"]) [] rfl
  refine ⟨completed, describes, ?_, ?_, ?_, ?_, ?_⟩
  · rw [describes.counts]
    decide
  · rw [describes.total]
    decide
  · rw [describes.executable]
    decide
  · rw [describes.typeSystem]
    decide
  · rw [ofDocuments_eq]
    decide

end Statistics
end GraphQL
