import GraphQL.Proofs.Rules
import GraphQL.Proofs.Spelling

/-! Extents: the tokens that a node was read from. An extent is a row of adjacent tokens, the origin
of the node runs from the first of them to the last, and the extents of the nodes below lie in it
one after another. -/
namespace GraphQL

/-- The part of a source from the first token of a row to the last. -/
def Origin.covering (s : Source) (ts : List Token) : Option Origin :=
  match ts.head?, ts.getLast? with
  | some first, some last => some ⟨s, first.start, last.stop⟩
  | _, _ => none

/-- The sorts of the tokens of a row. -/
abbrev kinds (ts : List Token) : List TokenKind := ts.map (·.kind)

theorem Definition.nil_notMem_spelling (style : Style) (d : Definition) :
    [] ∉ d.spelling style := by
  cases d with
  | operation d =>
    rintro (h | ⟨-, -, h⟩)
    · simp [Spelling.word] at h
    · simp [SelectionSet.spelling_eq, Spelling.word] at h
  | _ =>
    simp [Definition.spelling, FragmentDefinition.spelling, SchemaDefinition.spelling,
      SchemaExtension.spelling, TypeDefinition.spelling, TypeExtension.spelling,
      DirectiveDefinition.spelling]

/-- No node is written without tokens. -/
theorem Node.IsLawful.nil_notMem_spelling {n : Node} (h : n.IsLawful) : [] ∉ n.spelling := by
  cases n with
  | document d =>
    obtain ⟨first, rest, some_definition⟩ := List.exists_cons_of_ne_nil h
    have := first.nil_notMem_spelling .free
    simp [Node.spelling, Document.spelling, some_definition, this]
  | operation d => exact Definition.nil_notMem_spelling .free (.operation d)
  | value v =>
    cases v with
    | boolean o b => cases b <;> simp [Node.spelling, Value.spelling]
    | _ => simp [Node.spelling, Value.spelling, StringValue.spelling, intSpelling, floatSpelling]
  | type t =>
    rcases t with (t | t) | t <;>
      simp [Node.spelling, TypeRef.spelling, NullableType.spelling, NamedType.spelling,
        Name.spelling]
  | _ =>
    simp [Node.spelling, FragmentDefinition.spelling, VariableDefinition.spelling,
      SelectionSet.spelling_eq, Field.spelling_eq, FragmentSpread.spelling,
      InlineFragment.spelling_eq, Argument.spelling, Directive.spelling, ObjectField.spelling_eq,
      SchemaDefinition.spelling, SchemaExtension.spelling, RootType.spelling,
      TypeDefinition.spelling, TypeExtension.spelling, EnumValueDefinition.spelling,
      DirectiveDefinition.spelling, FieldDefinition.spelling, InputDefinition.spelling,
      Name.spelling, typeSpelling]

namespace Tree

mutual

/-- The tree of a node was read from exactly these tokens. -/
def Spans (s : Source) (ts : List Token) : Tree Node → Prop
  | node n below =>
    n.kind ≠ .document ∧ n.tree = node n below ∧ ts ≠ [] ∧
      n.origin? = Origin.covering s ts ∧ kinds ts ∈ n.spelling ∧ SpansRow s ts below

/-- The trees were read from parts of these tokens, in this order. -/
def SpansRow (s : Source) (ts : List Token) : List (Tree Node) → Prop
  | [] => True
  | t :: below =>
    ∃ gap own later, ts = gap ++ own ++ later ∧ t.Spans s own ∧ SpansRow s later below

end

variable {s : Source} {ts us : List Token} {a b : List (Tree Node)}

theorem SpansRow.append (ha : SpansRow s ts a) (hb : SpansRow s us b) :
    SpansRow s (ts ++ us) (a ++ b) := by
  induction a generalizing ts with
  | nil =>
    cases b with
    | nil => trivial
    | cons t b =>
      obtain ⟨gap, own, later, rfl, spans, rest⟩ := hb
      exact ⟨ts ++ gap, own, later, by simp, spans, rest⟩
  | cons t a ih =>
    obtain ⟨gap, own, later, rfl, spans, rest⟩ := ha
    exact ⟨gap, own, later ++ us, by simp, spans, ih rest⟩

theorem Spans.row {t : Tree Node} (h : t.Spans s ts) : SpansRow s ts [t] :=
  ⟨[], ts, [], by simp, h, trivial⟩

theorem Spans.ne_nil {t : Tree Node} (h : t.Spans s ts) : ts ≠ [] := by
  cases t with
  | node n below => exact h.2.2.1

end Tree

/-- What is known of tokens read as some trees: they spell them, the trees have their extents among
them, and the trees are legal. -/
structure Reading (s : Source) (const : Bool) (levels : Nat) (spelling : Spelling)
    (trees : List (Tree Node)) (ts : List Token) : Prop where
  spelled : kinds ts ∈ spelling
  spans : Tree.SpansRow s ts trees
  legal : ∀ t ∈ trees, t.Legal const levels

namespace Reading

variable {s : Source} {const : Bool} {levels : Nat} {A B : Spelling}
  {a b : List (Tree Node)} {ts us : List Token}

theorem nil : Reading s const levels 1 [] [] := ⟨rfl, trivial, by simp⟩

/-- A mark or a keyword: a token without a tree. -/
theorem token {t : Token} {k : TokenKind} (h : t.kind = k) :
    Reading s const levels (Spelling.word k) [] [t] :=
  ⟨by simp [h], trivial, by simp⟩

theorem append (ha : Reading s const levels A a ts) (hb : Reading s const levels B b us) :
    Reading s const levels (A * B) (a ++ b) (ts ++ us) where
  spelled := by
    rw [kinds, List.map_append]
    exact Language.append_mem_mul ha.spelled hb.spelled
  spans := ha.spans.append hb.spans
  legal := by
    intro t ht
    rcases List.mem_append.mp ht with h | h
    · exact ha.legal t h
    · exact hb.legal t h

theorem ne_nil {t : Tree Node} (h : Reading s const levels A (t :: a) ts) : ts ≠ [] := by
  obtain ⟨gap, own, later, rfl, spans, _⟩ := h.spans
  simp [spans.ne_nil]

/-- The tokens below a node, with its origin around them, make up the node. -/
theorem node {n : Node} (h : Reading s const levels n.spelling a ts) (tree : n.tree = .node n a)
    (ne : ts ≠ []) (origin : n.origin? = Origin.covering s ts) (lawful : n.IsLawful)
    (sort : n.kind ≠ .document ∧ (const = true → n.kind ≠ .value .variable)) :
    Reading s const (levels + n.nests.toNat) n.spelling [.node n a] ts where
  spelled := h.spelled
  spans := Tree.Spans.row ⟨sort.1, tree, ne, origin, h.spelled, h.spans⟩
  legal := by
    intro t ht
    rw [List.mem_singleton] at ht
    subst ht
    exact ⟨lawful, sort.2, levels, rfl, Tree.legalRow_iff.mpr h.legal⟩

/-- Where nothing varies, variables may be allowed. -/
theorem relax (h : Reading s true levels A a ts) : Reading s const levels A a ts where
  spelled := h.spelled
  spans := h.spans
  legal := fun t ht => (h.legal t ht).relax

end Reading
end GraphQL
