import GraphQL.Proofs.Complete.Document
import GraphQL.Proofs.Origins
import GraphQL.Proofs.Scanner.Slices

/-! The text of a node is read as that node again: no production looks at what surrounds the tokens
that it reads, and every text that an origin covers splits into the tokens it was cut from. -/
namespace GraphQL

namespace Tree

variable {s : Source} {const : Bool} {levels more : Nat}

theorem Legal.mono {t : Tree Node} (h : t.Legal const levels) (le : levels ≤ more) :
    t.Legal const more := by
  rw [legal_iff] at h ⊢
  exact ⟨h.1, h.2.1, fun way hw => (h.2.2 way hw).trans le⟩

theorem label_mem_preorder {α : Type} (t : Tree α) : t.label ∈ t.preorder := by
  cases t with
  | node a row => exact List.mem_cons_self

/-- What is legal below a node is legal without the node's own level. -/
theorem Legal.below {n : Node} {row : List (Tree Node)} (h : (node n row).Legal const levels) :
    ∀ t ∈ row, t.Legal const levels := by
  obtain ⟨-, -, below, rfl, legal⟩ := h
  intro t ht
  exact (legalRow_iff.mp legal t ht).mono (Nat.le_add_right _ _)

mutual

/-- Each subtree was read from tokens of its own, and is legal by itself. -/
theorem exists_own {t u : Tree Node} {ts : List Token} (spans : t.Spans s ts)
    (legal : t.Legal const levels) (mem : u ∈ t.subtrees) :
    ∃ before own after, ts = before ++ own ++ after ∧ u.Spans s own ∧ u.Legal const levels := by
  match t with
  | node n row =>
    rw [subtrees, List.mem_cons] at mem
    rcases mem with rfl | mem
    · exact ⟨[], ts, [], by simp, spans, legal⟩
    · exact exists_ownOf spans.2.2.2.2.2 legal.below mem

theorem exists_ownOf {row : List (Tree Node)} {u : Tree Node} {ts : List Token}
    (spans : SpansRow s ts row) (legal : ∀ t ∈ row, t.Legal const levels)
    (mem : u ∈ subtreesOf row) :
    ∃ before own after, ts = before ++ own ++ after ∧ u.Spans s own ∧ u.Legal const levels := by
  match row with
  | [] => cases mem
  | t :: row =>
    obtain ⟨gap, mine, later, rfl, first, others⟩ := spans
    rw [subtreesOf, List.mem_append] at mem
    rw [List.forall_mem_cons] at legal
    rcases mem with mem | mem
    · obtain ⟨before, own, after, rfl, found⟩ := exists_own first legal.1 mem
      exact ⟨gap ++ before, own, after ++ later, by simp, found⟩
    · obtain ⟨before, own, after, rfl, found⟩ := exists_ownOf others legal.2 mem
      exact ⟨gap ++ mine ++ before, own, after, by simp, found⟩

end

end Tree

open GraphQL.Parser

/-- A node has these tokens of a source for its own: its origin covers them, they spell it, and by
itself it keeps the rules. -/
structure OwnTokens (s : Source) (n : Node) (own : List Token) : Prop where
  nonempty : own ≠ []
  covering : n.origin? = Origin.covering s own
  spelled : kinds own ∈ n.spelling
  legal : n.tree.Legal false nestingLimit

/-- Every node of a parsed document but the document itself has tokens of its own in a row among the
words of the source. -/
theorem exists_ownTokens {s : Source} {d : Document} (h : s.parseDocument = .ok d) :
    ∃ ts, s.Words ts ∧ ∀ n ∈ Tree.preorderOf (d.definitions.map (·.tree)),
      ∃ before own after, ts = before ++ own ++ after ∧ OwnTokens s n own := by
  obtain ⟨ts, words, -, -, reading⟩ := parseDocument_ok h
  refine ⟨ts, words, fun n hn => ?_⟩
  rw [← Tree.map_label_subtreesOf, List.mem_map] at hn
  obtain ⟨⟨n, row⟩, mem, rfl⟩ := hn
  obtain ⟨before, own, after, among, ⟨-, tree, nonempty, origin, spelled, -⟩, legal⟩ :=
    Tree.exists_ownOf reading.spans reading.legal mem
  have whole : n.tree.Legal false nestingLimit := tree ▸ legal
  exact ⟨before, own, after, among, nonempty, origin, spelled, whole⟩

/-- The text of a node is read as the tokens of the node. -/
theorem OwnTokens.readsAs {s : Source} {n : Node} {before own after ts : List Token}
    (h : OwnTokens s n own) (words : s.Words ts) (among : ts = before ++ own ++ after) :
    ReadsAs n.text.toList (kinds own ++ [.endOfInput]) := by
  obtain ⟨e, -, all⟩ := words.ended
  have tokens : s.tokens.tokens = before ++ own ++ (after ++ [e]) := by simp [all, among]
  have no_end : ∀ t ∈ own, t.kind ≠ .endOfInput :=
    fun t ht => (words.words t (by simp [among, ht])).notEnd
  have covering : Origin.covering s own =
      some ⟨s, (own.head h.nonempty).start, (own.getLast h.nonempty).stop⟩ := by
    simp [Origin.covering, List.head?_eq_some_head h.nonempty,
      List.getLast?_eq_some_getLast h.nonempty]
  have reads := Origin.readsAs_covering tokens no_end covering
  simpa [Node.text, h.covering, covering] using reads

theorem Definition.node_tree (x : Definition) : x.node.tree = x.tree := by cases x <;> rfl

theorem Definition.node_spelling (x : Definition) : x.node.spelling = x.spelling .free := by
  cases x <;> rfl

theorem Definition.node_mem {d : Document} {x : Definition} (h : x ∈ d.definitions) :
    x.node ∈ Tree.preorderOf (d.definitions.map (·.tree)) := by
  have root : x.node ∈ x.tree.preorder := by
    have label := x.node.tree.label_mem_preorder
    rwa [x.node.label_tree, x.node_tree] at label
  rw [Tree.preorderOf_eq_flatMap, List.mem_flatMap]
  exact ⟨x.tree, List.mem_map_of_mem h, root⟩

section Alone

variable {s : Source} {ks : List TokenKind} {limit : Nat}

/-- What a parser reads from its tokens it reads from a text of these tokens alone. -/
theorem run_alone {α : Type} [Comparable α] {p : Parser α} {bad : List TokenKind}
    {spelling : Spelling} {a : α} (restores : Restores p bad spelling a)
    (ends : .endOfInput ∉ bad) (spelled : ks ∈ spelling)
    (reads : ReadsAs s.chars (ks ++ [.endOfInput])) :
    ∃ a', run (alone p) s limit = .ok a' ∧ same false a' a = true := by
  obtain ⟨tokens, complete⟩ := reads.tokens (.start s) rfl
  refine run_faces (by simp) tokens complete ?_
  intro c faces
  obtain ⟨a', c', ran, same_a, faces'⟩ :=
    (restores spelled).2 faces (Follows.cons_iff.mpr ends)
  refine ⟨a', c', ?_, same_a⟩
  simp only [alone, lifted_self, bind_ok, expectEnd_ok, pure_ok]
  exact ⟨a', c', ran, (), c', ⟨faces'.kind, rfl⟩, rfl, rfl⟩

/-- A text of the tokens of one definition is a document of this definition alone. -/
theorem run_definition {style : Style} {levels : Nat} {x : Definition}
    (legal : x.tree.Legal false levels) (spelled : ks ∈ x.spelling style)
    (reads : ReadsAs s.chars (ks ++ [.endOfInput])) :
    ∃ d, run (document levels) s limit = .ok d ∧
      ∃ y, d.definitions = [y] ∧ same false y x = true := by
  obtain ⟨tokens, complete⟩ := reads.tokens (.start s) rfl
  refine run_faces (by simp) tokens complete ?_
  intro c faces
  obtain ⟨y, c₁, ran, same_y, faces₁⟩ := (definition_restores legal spelled).2 faces
    (Follows.cons_iff.mpr (by simp [typeContinuations]))
  have no_more : ∀ z ∈ ([] : List Definition), z.tree.Legal false levels := by simp
  obtain ⟨ys, c₂, others, same_ys, -⟩ := definitions_restores no_more rfl faces₁
  obtain rfl : ys = [] := by
    cases ys with
    | nil => rfl
    | cons y ys => cases same_ys
  refine ⟨⟨some ⟨c₂.source, .first, c₂.lastEnd⟩, [y]⟩, c₂, ?_, y, rfl, same_y⟩
  simp only [document, lifted_self]
  rw [bind_eq ran, bind_eq others]
  rfl

end Alone

/-- Parsing the text of a node gives the node back, up to origins: of every definition in a document
that has been parsed, of every value anywhere in it and of every type, the elements of lists among
them. -/
theorem node_text_reparses {s : Source} {d : Document} (h : s.parseDocument = .ok d)
    (name : String) :
    (∀ x ∈ d.definitions, ∃ d', (⟨x.node.text, name⟩ : Source).parseDocument = .ok d' ∧
      ∃ y, d'.definitions = [y] ∧ same false y x = true) ∧
    (∀ v, .value v ∈ d.tree.preorder →
      ∃ w, (⟨(Node.value v).text, name⟩ : Source).parseValue = .ok w ∧ same false w v = true) ∧
    (∀ t, .type t ∈ d.tree.preorder →
      ∃ u, (⟨(Node.type t).text, name⟩ : Source).parseTypeRef = .ok u ∧ same false u t = true) := by
  obtain ⟨ts, words, own_tokens⟩ := exists_ownTokens h
  refine ⟨fun x hx => ?_, fun v hv => ?_, fun t ht => ?_⟩
  · obtain ⟨before, own, after, among, tokens⟩ := own_tokens _ (Definition.node_mem hx)
    exact run_definition (x.node_tree ▸ tokens.legal) (x.node_spelling ▸ tokens.spelled)
      (tokens.readsAs words among)
  · obtain ⟨before, own, after, among, tokens⟩ :=
      own_tokens _ ((List.mem_cons.mp hv).resolve_left (by simp))
    have restores : Restores (value none nestingLimit) [] v.spelling v :=
      value_restores tokens.legal
    exact run_alone restores (by simp) tokens.spelled (tokens.readsAs words among)
  · obtain ⟨before, own, after, among, tokens⟩ :=
      own_tokens _ ((List.mem_cons.mp ht).resolve_left (by simp))
    exact run_alone (typeRef_restores tokens.legal) (by simp) tokens.spelled
      (tokens.readsAs words among)

theorem node_text_reparses_two_definitions :
    ∃ s : Source,
      s.content = "query ($v: [Int!]) \x7b f(x: [\x7ba: $v\x7d, 1]) \x7d # T\ntype T implements & A" ∧
      ∃ d, s.parseDocument = .ok d ∧ d.definitions.length = 2 ∧
        (∀ x ∈ d.definitions, ∃ d', (⟨x.node.text, "u"⟩ : Source).parseDocument = .ok d' ∧
          ∃ y, d'.definitions = [y] ∧ same false y x = true) ∧
        (∀ v, .value v ∈ d.tree.preorder →
          ∃ w, (⟨(Node.value v).text, "u"⟩ : Source).parseValue = .ok w ∧ same false w v = true) ∧
        ∀ t, .type t ∈ d.tree.preorder →
          ∃ u, (⟨(Node.type t).text, "u"⟩ : Source).parseTypeRef = .ok u ∧ same false u t = true := by
  let s : Source :=
    ⟨"query ($v: [Int!]) \x7b f(x: [\x7ba: $v\x7d, 1]) \x7d # T\ntype T implements & A", "t"⟩
  obtain ⟨d, h, two⟩ : ∃ d, s.parseDocument = .ok d ∧ d.definitions.length = 2 :=
    ⟨_, by cbv, rfl⟩
  exact ⟨s, rfl, d, h, two, node_text_reparses h "u"⟩

end GraphQL
