import GraphQL.Proofs.Equality.Detached

/-! Comparison of syntax is by structure: where origins count it is equality, where they do not it is
equality of what is left without them, and it fails if there is any other difference. -/
namespace GraphQL

/-- What the comparisons of syntax in a slot come to. -/
structure Slot.ComparesByStructure (r : Slot) : Prop where
  /-- Where origins count, comparison is equality. -/
  strict : ∀ a b, r.Admits a → r.Admits b → r.same true a b = r.beq a b
  /-- Where they do not, it is equality of what is left without them. -/
  loose : ∀ a b, r.Admits a → r.Admits b → r.same false a b = r.beq (r.detached a) (r.detached b)
  /-- Nothing is left of them anywhere below. -/
  detached : ∀ a, r.Admits a → ∀ n ∈ (r.node (r.detached a)).tree.preorder, n.origin? = none
  weaker : ∀ a b, r.Admits a → r.Admits b → r.same true a b = true → r.same false a b = true
  refl : ∀ origins a, r.Admits a → r.Numeric a → r.same origins a a = true
  symm : ∀ origins a b, r.Admits a → r.Admits b → r.same origins a b = true →
    r.same origins b a = true
  trans : ∀ origins a b c, r.Admits a → r.Admits b → r.Admits c → r.same origins a b = true →
    r.same origins b c = true → r.same origins a c = true
  /-- Syntax that differs is not the same, whether origins count or not. -/
  differ : ∀ origins a b, r.Admits a → r.Admits b → Differ r a b → r.same origins a b = false
  /-- Where origins do not count, nothing else makes a difference. -/
  alike : ∀ a b, r.Admits a → r.Admits b → ¬ Differ r a b → r.same false a b = true

theorem Slot.loose_byParts :
    Relation.ByParts (fun r a b => r.same false a b = true) fun _ _ => True := by
  simpa using same_byParts false

theorem sameOrigin_refl (origins : Bool) (o : Option Origin) : sameOrigin origins o o = true := by
  simp [sameOrigin]

theorem sameOrigin_symm {origins : Bool} {o o' : Option Origin}
    (h : sameOrigin origins o o' = true) : sameOrigin origins o' o = true := by
  cases origins <;> simp_all [sameOrigin]

theorem sameOrigin_trans {origins : Bool} {o o' o'' : Option Origin}
    (h : sameOrigin origins o o' = true) (h' : sameOrigin origins o' o'' = true) :
    sameOrigin origins o o'' = true := by
  cases origins <;> simp_all [sameOrigin]

theorem Slot.comparesByStructure (r : Slot) : r.ComparesByStructure where
  strict _ _ ha hb := Bool.eq_iff_iff.mpr ((same_byParts true).unique beq_byParts ha hb)
  loose _ _ ha hb := Bool.eq_iff_iff.mpr (loose_byParts.unique beq_detached_byParts ha hb)
  detached := r.origin?_detached
  weaker _ _ ha hb := (same_byParts true).mono loose_byParts (fun _ _ _ => trivial) ha hb
  refl origins _ ha numeric := (same_byParts origins).refl (sameOrigin_refl origins) ha numeric
  symm origins _ _ ha hb := (same_byParts origins).symm (fun _ _ => sameOrigin_symm) ha hb
  trans origins _ _ _ ha hb hc :=
    (same_byParts origins).trans (fun _ _ _ => sameOrigin_trans) ha hb hc
  differ origins _ _ ha hb differ :=
    Bool.eq_false_iff.mpr ((same_byParts origins).not_of_differ ha hb differ)
  alike _ _ ha hb := loose_byParts.of_not_differ ha hb

/-- Comparison of syntax of any sort is by structure, and origins are equal if they are from the same
positions to the same positions of sources with the same name and the same content. -/
theorem syntax_compares_by_structure :
    (∀ r : Slot, r.ComparesByStructure) ∧
    ∀ o o' : Origin, (o == o') = true ↔ o.source.name = o'.source.name ∧
      o.source.content = o'.source.content ∧ o.start = o'.start ∧ o.stop = o'.stop := by
  refine ⟨Slot.comparesByStructure, fun o o' => ?_⟩
  obtain ⟨⟨content, name⟩, start, stop⟩ := o
  obtain ⟨⟨content', name'⟩, start', stop'⟩ := o'
  simp only [beq_iff_eq, Origin.mk.injEq, Source.mk.injEq]
  tauto

/-- Directives that differ in whether they are repeatable, in documents with and without an origin, and
a list of the two zeros. -/
theorem syntax_compares_by_structure_repeatable :
    let s : Source := ⟨"directive @d on FIELD", "f"⟩
    let origin : Origin := ⟨s, .first, ⟨0, 21, 21, 21⟩⟩
    let document (o : Option Origin) (isRepeatable : Bool) : Document :=
      ⟨o, [.directive ⟨o, none, ⟨none, "d"⟩, [], isRepeatable, [⟨none, "FIELD"⟩]⟩]⟩
    let zeros (o : Option Origin) : Value :=
      .list o [.float o (Float.ofBits 0), .float none (Float.ofBits 9223372036854775808)]
    Slot.document.same false (document origin false) (document none false) = true ∧
      Slot.document.same true (document origin false) (document none false) = false ∧
      (∀ origins, Slot.document.same origins (document none false) (document none true) = false) ∧
      (∀ origins, (Slot.valueOf .list).same origins (zeros origin) (zeros origin) = true) ∧
      (Slot.valueOf .list).same false (zeros origin) (zeros none) = true := by
  intro s origin document zeros
  have documents := syntax_compares_by_structure.1 .document
  have lists := syntax_compares_by_structure.1 (.valueOf .list)
  have directives : Differ .directiveDefinition
      ⟨none, none, ⟨none, "d"⟩, [], false, [⟨none, "FIELD"⟩]⟩
      ⟨none, none, ⟨none, "d"⟩, [], true, [⟨none, "FIELD"⟩]⟩ := .data rfl
  refine ⟨?_, ?_, fun origins => ?_, fun origins => ?_, ?_⟩
  · exact (documents.loose _ _ trivial trivial).trans (by decide)
  · exact (documents.strict _ _ trivial trivial).trans (by decide)
  · have definitions : Differ .definition (.directive _) (.directive _) :=
      .item (i := 0) (j := 0) rfl rfl rfl rfl directives
    exact documents.differ origins _ _ trivial trivial
      (.item (i := 0) (j := 0) rfl rfl rfl rfl definitions)
  · exact lists.refl origins _ rfl (by unfold Slot.Numeric; decide +kernel)
  · exact (lists.loose (zeros origin) (zeros none) rfl rfl).trans (by decide +kernel)

end GraphQL
