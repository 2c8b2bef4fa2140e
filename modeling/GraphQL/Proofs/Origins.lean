import GraphQL.Proofs.Sound.Program

/-! Origins: every node of a tree that is read from a source covers a row of tokens, and the nodes
below it cover rows in that row, one after another in the order of the text. -/
namespace GraphQL

/-- Everything that a source can be read as. -/
inductive Source.Yields (s : Source) : Node → Prop where
  | document {d : Document} (h : s.parseDocument = .ok d) : s.Yields (.document d)
  | value {v : Value} (h : s.parseValue = .ok v) : s.Yields (.value v)
  | constValue {v : Value} (h : s.parseConstValue = .ok v) : s.Yields (.value v)
  | type {t : TypeRef} (h : s.parseTypeRef = .ok t) : s.Yields (.type t)

/-- A row of adjacent tokens: the place of its first one and the place after its last one. -/
structure Extent where
  start : Nat
  stop : Nat

namespace Tree

variable {α β : Type}

mutual

/-- The tree with other labels. -/
def map (f : α → β) : Tree α → Tree β
  | node a ts => node (f a) (mapRow f ts)

/-- The trees of a row with other labels. -/
def mapRow (f : α → β) : List (Tree α) → List (Tree β)
  | [] => []
  | t :: ts => t.map f :: mapRow f ts

end

@[simp] theorem label_map (f : α → β) (t : Tree α) : (t.map f).label = f t.label := by
  cases t
  rfl

theorem map_label_mapRow (f : α → β) (ts : List (Tree α)) :
    (mapRow f ts).map label = ts.map (f ·.label) := by
  induction ts with
  | nil => rfl
  | cons t ts ih => simp [mapRow, ih]

theorem subtreesOf_eq_flatMap (ts : List (Tree α)) : subtreesOf ts = ts.flatMap subtrees := by
  induction ts with
  | nil => rfl
  | cons t ts ih => simp [subtreesOf, ih]

end Tree

/-- What holds of a node, its extent among the words `ts` of a source, and the nodes right below it
with their extents. Only a document starts elsewhere than at its first token. -/
structure Placed (s : Source) (ts : List Token) (n : Node) (e : Extent)
    (below : List (Tree (Node × Extent))) : Prop where
  nonempty : e.start < e.stop
  bounded : e.stop ≤ ts.length
  whole : n.kind = .document → e = ⟨0, ts.length⟩
  origin : ∃ first last, ts[e.start]? = some first ∧ ts[e.stop - 1]? = some last ∧
    n.origin? = some ⟨s, if n.kind = .document then .first else first.start, last.stop⟩ ∧
    (n.kind ≠ .document → first.kind.written.toList <+: n.text.toList) ∧
    last.kind.written.toList <:+ n.text.toList
  name : ∀ m, n = .name m → n.text = m.value
  children : below.map (·.label.1) = n.children
  within : ∀ t ∈ below, e.start ≤ t.label.2.start ∧ t.label.2.stop ≤ e.stop
  ordered : below.Pairwise fun t u => t.label.2.stop ≤ u.label.2.start

/-- Every node of a tree is placed. -/
def AllPlaced (s : Source) (ts : List Token) (t : Tree (Node × Extent)) : Prop :=
  ∀ n e below, .node (n, e) below ∈ t.subtrees → Placed s ts n e below

theorem allPlaced_node {s : Source} {ts : List Token} {n : Node} {e : Extent}
    {below : List (Tree (Node × Extent))} :
    AllPlaced s ts (.node (n, e) below) ↔
      Placed s ts n e below ∧ ∀ t ∈ below, AllPlaced s ts t := by
  simp only [AllPlaced, Tree.subtrees, Tree.subtreesOf_eq_flatMap, List.mem_cons,
    List.mem_flatMap]
  constructor
  · intro h
    refine ⟨h n e below (.inl rfl), ?_⟩
    intro t ht m f later hm
    exact h m f later (.inr ⟨t, ht, hm⟩)
  · rintro ⟨root, h⟩ m f later (same | ⟨t, ht, hm⟩)
    · cases same
      exact root
    · exact h t ht m f later hm

/-- A row of tokens among others. -/
theorem getElem?_row {α : Type} (before after : List α) {row : List α} (ne : row ≠ []) :
    (before ++ row ++ after)[before.length]? = row.head? ∧
      (before ++ row ++ after)[before.length + row.length - 1]? = row.getLast? := by
  have pos := List.length_pos_iff.mpr ne
  constructor
  · rw [List.append_assoc, List.getElem?_append_right (Nat.le_refl _),
      List.getElem?_append_left (by omega), Nat.sub_self, List.head?_eq_getElem?]
  · rw [List.append_assoc, List.getElem?_append_right (by omega),
      List.getElem?_append_left (by omega), List.getLast?_eq_getElem?]
    congr 1
    omega

section Rows

variable {s : Source} {ts : List Token}

/-- A node that has its extent in some tokens. -/
theorem placed_of_spans {n : Node} {row : List (Tree Node)} {before own after rest : List Token}
    {below : List (Tree (Node × Extent))} (tiled : Tiled .first s.chars (ts ++ rest))
    (spans : (Tree.node n row).Spans s own) (all : ts = before ++ own ++ after)
    (labels : Tree.mapRow Prod.fst below = row)
    (within : ∀ t ∈ below, before.length ≤ t.label.2.start ∧
      t.label.2.stop ≤ before.length + own.length)
    (ordered : below.Pairwise fun t u => t.label.2.stop ≤ u.label.2.start) :
    Placed s ts n ⟨before.length, before.length + own.length⟩ below := by
  obtain ⟨notDocument, tree, ne, origin, spelled, -⟩ := spans
  obtain ⟨first_at, last_at⟩ := getElem?_row before after ne
  have head := List.head?_eq_some_head ne
  have tail := List.getLast?_eq_some_getLast ne
  have covering : Origin.covering s own = some ⟨s, (own.head ne).start, (own.getLast ne).stop⟩ := by
    simp [Origin.covering, head, tail]
  rw [all, List.append_assoc] at tiled
  have covers := tiled.text_covering covering
  rw [covering] at origin
  have text : n.text = (⟨s, (own.head ne).start, (own.getLast ne).stop⟩ : Origin).text := by
    simp [Node.text, origin]
  rw [← text] at covers
  subst all
  have pos := List.length_pos_iff.mpr ne
  exact {
    nonempty := by simp only; omega
    bounded := by simp only [List.length_append]; omega
    whole := fun document => absurd document notDocument
    origin := ⟨own.head ne, own.getLast ne, first_at.trans head, last_at.trans tail,
      by rw [origin, if_neg notDocument], fun _ => covers.prefix_head _ head,
      covers.suffix_last _ tail⟩
    name := by
      rintro m rfl
      obtain ⟨t, rfl, kind⟩ : ∃ t, own = [t] ∧ t.kind = .name m.value := by
        simpa [Node.spelling, Name.spelling, kinds, List.map_eq_singleton_iff] using spelled
      rw [← String.toList_inj, covers.single, kind]
      rfl
    children := by
      rw [Node.children, tree, ← labels]
      exact (Tree.map_label_mapRow Prod.fst below).symm
    within := within
    ordered := ordered }

mutual

/-- The extents that the nodes of a tree have are found from the root down. -/
theorem exists_placed {before own after rest : List Token}
    (tiled : Tiled .first s.chars (ts ++ rest)) (all : ts = before ++ own ++ after) (t : Tree Node)
    (spans : t.Spans s own) :
    ∃ p : Tree (Node × Extent), p.map Prod.fst = t ∧
      p.label.2 = ⟨before.length, before.length + own.length⟩ ∧ AllPlaced s ts p := by
  match t with
  | .node n row =>
    have below := spans.2.2.2.2.2
    obtain ⟨ps, labels, within, ordered, placed⟩ := exists_placedRow tiled all row below
    refine ⟨.node (n, ⟨before.length, before.length + own.length⟩) ps, ?_, rfl, ?_⟩
    · simp [Tree.map, labels]
    · rw [allPlaced_node]
      exact ⟨placed_of_spans tiled spans all labels within ordered, placed⟩

theorem exists_placedRow {before own after rest : List Token}
    (tiled : Tiled .first s.chars (ts ++ rest)) (all : ts = before ++ own ++ after)
    (row : List (Tree Node)) (spans : Tree.SpansRow s own row) :
    ∃ ps : List (Tree (Node × Extent)), Tree.mapRow Prod.fst ps = row ∧
      (∀ t ∈ ps, before.length ≤ t.label.2.start ∧
        t.label.2.stop ≤ before.length + own.length) ∧
      ps.Pairwise (fun t u => t.label.2.stop ≤ u.label.2.start) ∧ ∀ t ∈ ps, AllPlaced s ts t := by
  match row with
  | [] => exact ⟨[], rfl, by simp, by simp, by simp⟩
  | t :: row =>
    obtain ⟨gap, mine, later, rfl, first, others⟩ := spans
    have left : ts = (before ++ gap) ++ mine ++ (later ++ after) := by simp [all]
    have right : ts = (before ++ gap ++ mine) ++ later ++ after := by simp [all]
    obtain ⟨p, label, extent, placed⟩ := exists_placed tiled left t first
    obtain ⟨ps, labels, within, ordered, allPlaced⟩ := exists_placedRow tiled right row others
    refine ⟨p :: ps, by simp [Tree.mapRow, label, labels], ?_, ?_, ?_⟩
    · intro u hu
      rcases List.mem_cons.mp hu with rfl | hu
      · simp only [extent, List.length_append]
        omega
      · have := within u hu
        simp only [List.length_append] at this ⊢
        omega
    · refine List.pairwise_cons.mpr ⟨?_, ordered⟩
      intro u hu
      have := (within u hu).1
      simp only [extent, List.length_append] at this ⊢
      omega
    · intro u hu
      rcases List.mem_cons.mp hu with rfl | hu
      · exact placed
      · exact allPlaced u hu

end

end Rows

/-- What is read alone is read from all words. -/
theorem alone_words {α : Type} {p : Parser α} {const : Bool} {levels limit : Nat}
    {spelling : α → Spelling} {tree : α → Tree Node} {s : Source} {a : α}
    (reads : Parser.Reads const levels p spelling fun a => [tree a])
    (h : Parser.run (Parser.alone p) s limit = .ok a) :
    ∃ ts, s.Words ts ∧ Tree.SpansRow s ts [tree a] := by
  obtain ⟨c, c', opens, ran⟩ := Parser.run_ok h
  obtain ⟨ran, at_end⟩ := Parser.alone_ok ran
  obtain ⟨ts, steps, reading⟩ := reads opens.ready ran
  rw [opens.source] at reading
  exact ⟨ts, opens.words steps at_end, reading.spans⟩

/-- A tree read from all words is placed among them. -/
theorem exists_placed_words {s : Source} {ts : List Token} {t : Tree Node} (words : s.Words ts)
    (spans : Tree.SpansRow s ts [t]) :
    ∃ p : Tree (Node × Extent), p.map Prod.fst = t ∧ AllPlaced s ts p := by
  obtain ⟨e, tiled⟩ := words.tiled
  obtain ⟨gap, own, later, rfl, mine, -⟩ := spans
  obtain ⟨p, labels, -, placed⟩ := exists_placed tiled rfl t mine
  exact ⟨p, labels, placed⟩

/-- A document is placed as a whole: it starts where the text does and ends with its last word. -/
theorem exists_placed_document {s : Source} {d : Document} (h : s.parseDocument = .ok d) :
    ∃ ts, s.Words ts ∧
      ∃ p : Tree (Node × Extent), p.map Prod.fst = d.tree ∧ AllPlaced s ts p := by
  obtain ⟨ts, words, -, ⟨last, tail, origin⟩, reading⟩ := parseDocument_ok h
  obtain ⟨e, tiled⟩ := words.tiled
  have all : ts = [] ++ ts ++ [] := by simp
  obtain ⟨ps, labels, within, ordered, placed⟩ := exists_placedRow tiled all _ reading.spans
  have ne : ts ≠ [] := by
    rintro rfl
    simp at tail
  have pos := List.length_pos_iff.mpr ne
  refine ⟨ts, words, .node (.document d, ⟨0, ts.length⟩) ps, ?_, allPlaced_node.mpr ⟨?_, placed⟩⟩
  · simp [Tree.map, labels, Document.tree]
  · have text : (Node.document d).text = (⟨s, .first, last.stop⟩ : Origin).text := by
      simp [Node.text, Node.origin?, origin]
    exact {
      nonempty := pos
      bounded := Nat.le_refl _
      whole := fun _ => rfl
      origin := ⟨ts.head ne, last, by simp [List.head_eq_getElem, pos],
        by rw [← List.getLast?_eq_getElem?, tail], by simp [Node.origin?, Node.kind, origin],
        by simp [Node.kind], text ▸ tiled.suffix_text tail⟩
      name := by simp
      children := by
        have below := Tree.map_label_mapRow Prod.fst ps
        rw [labels] at below
        exact below.symm
      within := by simpa using within
      ordered := ordered }

/-- Origins are exact in everything that is read: each node has an extent among the words of the
source, from the first of which its origin starts and with the last of which it ends. -/
theorem origins_exact {s : Source} {n : Node} (h : s.Yields n) :
    ∃ ts, s.Words ts ∧
      ∃ p : Tree (Node × Extent), p.map Prod.fst = n.tree ∧ AllPlaced s ts p := by
  cases h with
  | document h => exact exists_placed_document h
  | value h =>
    obtain ⟨ts, words, spans⟩ := alone_words (Parser.value_reads none nestingLimit) h
    exact ⟨ts, words, exists_placed_words words spans⟩
  | constValue h =>
    obtain ⟨ts, words, spans⟩ := alone_words (Parser.value_reads (some .constValue) nestingLimit) h
    exact ⟨ts, words, exists_placed_words words spans⟩
  | type h =>
    have reads : Parser.Reads false nestingLimit (Parser.typeRef nestingLimit) (·.spelling)
        fun t => [t.tree] := Parser.typeRef_reads nestingLimit
    obtain ⟨ts, words, spans⟩ := alone_words reads h
    exact ⟨ts, words, exists_placed_words words spans⟩

theorem origins_exact_described_type :
    ∃ s : Source,
      s.content = "# T\ntype T implements & A \x7b \"f\" f(x: [Int!]! = [1]): T! @d \x7d" ∧
      ∃ d, s.Yields (.document d) ∧ ∃ ts, s.Words ts ∧
        ∃ p : Tree (Node × Extent), p.map Prod.fst = d.tree ∧ AllPlaced s ts p := by
  let s : Source := ⟨"# T\ntype T implements & A \x7b \"f\" f(x: [Int!]! = [1]): T! @d \x7d", "t"⟩
  have parsed : s.parseDocument.isOk = true := by decide +kernel
  cases read : s.parseDocument with
  | ok d => exact ⟨s, rfl, d, .document read, origins_exact (.document read)⟩
  | error e => simp [read, Except.isOk, Except.toBool] at parsed

end GraphQL
