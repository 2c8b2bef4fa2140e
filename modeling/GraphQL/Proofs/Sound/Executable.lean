import GraphQL.Parser.Executable
import GraphQL.Proofs.Sound.Value

/-! What the parsers of directives, selections, operations and fragments read. -/
namespace GraphQL.Parser

open Spelling

variable {const : Bool} {levels : Nat} {c c' : Cursor}

section Values

variable {p : Parser Value} (values : Reads const levels p (·.spelling) fun v => [v.tree])
include values

theorem argument_reads : Reads const levels (argument p) (·.spelling) fun a => [a.tree] := by
  intro c c' a ready h
  simp only [argument, lifted_self, bind_ok, here_ok, spanFrom_ok, pure_ok] at h
  obtain ⟨_, _, ⟨rfl, rfl⟩, n, c₁, named, t, c₂, colon, v, c₃, valued, o, _, ⟨origin, rfl⟩, rfl,
    rfl⟩ := h
  have r₁ : Read const levels c c₁ n.spelling [n.tree] := name_reads ready named
  have r₂ : Read const levels c c₂ _ [n.tree] := r₁.skip (expect_reads (r₁.ready ready) colon)
  have r := r₂.trans (values (r₂.ready ready) valued)
  exact r.node (.argument ⟨some o, n, v⟩) rfl (congrArg some origin) trivial (by simp [Node.kind])

theorem arguments_reads :
    Reads const levels (arguments p) (block .openParen .closeParen (·.spelling))
      (·.map (·.tree)) :=
  optionalMany_reads (argument_reads values) _ _

theorem directive_reads : Reads const levels (directive p) (·.spelling) fun d => [d.tree] := by
  intro c c' d ready h
  simp only [directive, lifted_self, bind_ok, here_ok, spanFrom_ok, pure_ok] at h
  obtain ⟨_, _, ⟨rfl, rfl⟩, t, c₁, at_sign, n, c₂, named, as, c₃, given, o, _, ⟨origin, rfl⟩, rfl,
    rfl⟩ := h
  have r₁ : Read const levels c c₁ (mark .atSign) [] := expect_reads ready at_sign
  have r₂ := r₁.trans (name_reads (r₁.ready ready) named)
  have r := r₂.trans (arguments_reads values (r₂.ready ready) given)
  exact r.node (.directive ⟨some o, n, as⟩) rfl (congrArg some origin) trivial (by simp [Node.kind])

theorem directives_reads :
    Reads const levels (directives p) (row (·.spelling)) (·.map (·.tree)) :=
  whileAt_reads (directive_reads values) _

variable {q : Parser SelectionSet}
  (selections : Reads const levels q (·.spelling) fun s => [s.tree])
include selections

/-- A field from its arguments on. -/
theorem fieldRest_reads {f : Field} {aliasName : Option Name} {n : Name} {c₁ : Cursor}
    (ready : c.Ready)
    (r : Read const levels c c₁
      (maybe (fun n : Name => n.spelling * mark .colon) aliasName * n.spelling)
      (aliasName.toList.map (·.tree) ++ [n.tree]))
    (h : (do
      let args ← arguments p
      let ds ← directives p
      let inner ← if ← atMark .openBrace then some <$> q else pure none
      return ⟨some (← spanFrom c.current.start), aliasName, n, args, ds, inner⟩ : Parser Field) c₁ =
      .ok (f, c')) :
    Read const levels c c' f.spelling [f.tree] := by
  simp only [bind_ok, atMark_ok] at h
  obtain ⟨as, c₂, given, ds, c₃, applied, _, _, ⟨rfl, rfl⟩, h⟩ := h
  have r₁ := r.trans (arguments_reads values (r.ready ready) given)
  have r₂ := r₁.trans (directives_reads values (r₁.ready ready) applied)
  have whole : ∃ inner o, f = ⟨some o, aliasName, n, as, ds, inner⟩ ∧
      (⟨c'.source, c.current.start, c'.lastEnd⟩ : Origin) = o ∧
      Read const levels c₃ c' (SelectionSet.optionalSpelling inner)
        (SelectionSet.optionalTree inner) := by
    split at h
    · simp only [bind_ok, map_ok, spanFrom_ok, pure_ok] at h
      obtain ⟨_, c₄, ⟨s, selected, rfl⟩, o, _, ⟨origin, rfl⟩, rfl, rfl⟩ := h
      exact ⟨some s, o, rfl, origin, selections (r₂.ready ready) selected⟩
    · simp only [bind_ok, spanFrom_ok, pure_ok] at h
      obtain ⟨_, _, ⟨rfl, rfl⟩, o, _, ⟨origin, rfl⟩, rfl, rfl⟩ := h
      exact ⟨none, o, rfl, origin, .refl c₃⟩
  obtain ⟨inner, o, rfl, origin, r₃⟩ := whole
  exact (r₂.trans r₃).node (.field ⟨some o, aliasName, n, as, ds, inner⟩) rfl (congrArg some origin)
    trivial (by simp [Node.kind])

theorem field_reads : Reads const levels (field p q) (·.spelling) fun f => [f.tree] := by
  intro c c' f ready h
  simp only [field, lifted_self, bind_ok, here_ok] at h
  obtain ⟨_, _, ⟨rfl, rfl⟩, first, c₁, named, b, c₂, accepted, h⟩ := h
  have r₁ : Read const levels c c₁ first.spelling [first.tree] := name_reads ready named
  rcases accept_reads const levels (r₁.ready ready) accepted with ⟨rfl, colon⟩ | ⟨rfl, rfl⟩
  · rw [if_pos rfl] at h
    obtain ⟨n, c₃, second, h⟩ := bind_ok.mp h
    have r₂ := r₁.skip colon
    exact fieldRest_reads values selections ready
      (r₂.trans (name_reads (r₂.ready ready) second)) h
  · rw [if_neg (by simp)] at h
    have r : Read const levels c c₁ (maybe (fun n : Name => n.spelling * mark .colon) none *
        first.spelling) [first.tree] := by
      simpa only [maybe, one_mul] using r₁
    exact fieldRest_reads values selections ready r h

/-- An inline fragment from its directives on. -/
theorem inlineRest_reads {s : Selection} {condition : Option NamedType} {c₁ : Cursor}
    (ready : c.Ready)
    (r : Read const levels c c₁
      (mark .ellipsis * maybe (fun t : NamedType => keyword "on" * t.spelling) condition)
      (condition.toList.map (·.tree)))
    (h : (do
      let ds ← directives p
      let inner ← q
      return .inlineFragment ⟨some (← spanFrom c.current.start), condition, ds, inner⟩ :
      Parser Selection) c₁ = .ok (s, c')) :
    Read const levels c c' s.spelling [s.tree] := by
  simp only [bind_ok, spanFrom_ok, pure_ok] at h
  obtain ⟨ds, c₂, applied, inner, c₃, selected, o, _, ⟨origin, rfl⟩, rfl, rfl⟩ := h
  have r₁ := r.trans (directives_reads values (r.ready ready) applied)
  have r₂ := r₁.trans (selections (r₁.ready ready) selected)
  exact r₂.node (.inlineFragment ⟨some o, condition, ds, inner⟩) rfl (congrArg some origin) trivial
    (by simp [Node.kind])

/-- A name after the dots that is not `on` makes a spread. -/
theorem fragmentSelection_reads :
    Reads const levels (fragmentSelection p q) (·.spelling) fun s => [s.tree] := by
  intro c c' s ready h
  simp only [fragmentSelection, lifted_self, bind_ok, here_ok, atKeyword_ok, peek_ok] at h
  obtain ⟨_, _, ⟨rfl, rfl⟩, _, c₁, dots, _, _, ⟨rfl, rfl⟩, _, _, ⟨rfl, rfl⟩, h⟩ := h
  have r₁ : Read const levels c c₁ (mark .ellipsis) [] := expect_reads ready dots
  split at h
  · next spread =>
    simp only [bind_ok, spanFrom_ok, pure_ok] at h
    obtain ⟨n, c₂, named, ds, c₃, applied, o, _, ⟨origin, rfl⟩, rfl, rfl⟩ := h
    have r₂ := r₁.trans (name_reads (r₁.ready ready) named)
    have r₃ := r₂.trans (directives_reads values (r₂.ready ready) applied)
    have lawful : n.value ≠ "on" := by
      intro on
      obtain ⟨kind, -⟩ := name_ok (r₁.ready ready) named
      simp [kind, on, TokenKind.isKeyword] at spread
    exact r₃.node (.spread ⟨some o, n, ds⟩) rfl (congrArg some origin) lawful (by simp [Node.kind])
  · split at h
    · next on =>
      rw [TokenKind.isKeyword_iff] at on
      obtain ⟨_, c₂, consumed, h⟩ := bind_ok.mp h
      obtain ⟨_, c₃, mapped, h⟩ := bind_ok.mp h
      obtain ⟨t, named, rfl⟩ := map_ok.mp mapped
      have word : Read const levels c₁ c₂ (keyword "on") [] :=
        consume_word (r₁.ready ready) on (by simp) consumed
      have r₂ := word.trans (namedType_reads (word.ready (r₁.ready ready)) named)
      exact inlineRest_reads values selections ready (r₁.trans r₂) h
    · obtain ⟨_, c₂, nothing, h⟩ := bind_ok.mp h
      obtain ⟨rfl, rfl⟩ := pure_ok.mp nothing
      exact inlineRest_reads values selections ready (r₁.skip (.refl c₁)) h

theorem selection_reads : Reads const levels (selection p q) (·.spelling) fun s => [s.tree] := by
  intro c c' s ready h
  simp only [selection, lifted_self, bind_ok, atMark_ok] at h
  obtain ⟨_, _, ⟨rfl, rfl⟩, h⟩ := h
  split at h
  · exact fragmentSelection_reads values selections ready h
  · obtain ⟨f, found, rfl⟩ := map_ok.mp h
    exact field_reads values selections ready found

end Values

/-- Selection sets within a limit of levels. -/
theorem selectionSet_reads (levels : Nat) :
    Reads false levels (selectionSet levels) (·.spelling) fun s => [s.tree] := by
  induction levels with
  | zero =>
    intro c c' s ready h
    exact absurd h tooDeep_ok
  | succ levels ih =>
    intro c c' s ready h
    simp only [selectionSet, nested_self, lifted_self, bind_ok, here_ok, spanFrom_ok, pure_ok] at h
    obtain ⟨_, _, ⟨rfl, rfl⟩, ss, c₁, items, o, _, ⟨origin, rfl⟩, rfl, rfl⟩ := h
    have r := many_reads (selection_reads (value_reads none levels) ih) _ _ ready items
    simp only [← Selection.spellings_eq_row, ← Selection.trees_eq_map] at r
    exact r.node (.selectionSet ⟨some o, ss⟩) rfl (congrArg some origin) (many_ne_nil items)
      (by simp [Node.kind])

theorem operationKind_reads :
    Reads const levels operationKind (fun k => keyword k.keyword) fun _ => [] := by
  intro c c' k ready h
  simp only [operationKind, bind_ok, peek_ok] at h
  obtain ⟨_, _, ⟨rfl, rfl⟩, h⟩ := h
  cases kind : c.current.kind with
  | name word =>
    cases found : OperationKind.ofKeyword? word with
    | none => simp [kind, found] at h
    | some k' =>
      simp only [kind, found, bind_ok, pure_ok] at h
      obtain ⟨t, c₁, consumed, rfl, rfl⟩ := h
      have spelled : k'.keyword = word := by simpa using List.find?_some found
      exact consume_word ready (spelled ▸ kind) (by simp) consumed
  | _ => simp [kind] at h

/-- A default value, which has to be constant. -/
theorem optionalDefault_reads (position : ConstPosition) :
    Reads true levels (optionalDefault position levels) defaultSpelling
      (·.toList.map (·.tree)) := by
  intro c c' o ready h
  simp only [optionalDefault, lifted_self, bind_ok] at h
  obtain ⟨b, c₁, accepted, h⟩ := h
  rcases accept_reads true levels ready accepted with ⟨rfl, equals⟩ | ⟨rfl, rfl⟩
  · rw [if_pos rfl] at h
    obtain ⟨v, valued, rfl⟩ := map_ok.mp h
    exact equals.trans (value_reads (some position) levels (equals.ready ready) valued)
  · rw [if_neg (by simp)] at h
    obtain ⟨rfl, rfl⟩ := pure_ok.mp h
    exact .refl c

theorem constDirectives_reads :
    Reads true levels (constDirectives levels) (row (·.spelling)) (·.map (·.tree)) :=
  directives_reads (value_reads (some .directiveArgument) levels)

theorem variableDefinition_reads :
    Reads true levels (variableDefinition levels) (·.spelling) fun d => [d.tree] := by
  intro c c' d ready h
  simp only [variableDefinition, lifted_self, bind_ok, here_ok, spanFrom_ok, pure_ok] at h
  obtain ⟨_, _, ⟨rfl, rfl⟩, n, c₁, named, _, c₂, colon, t, c₃, typed, v, c₄, defaulted, ds, c₅,
    applied, o, _, ⟨origin, rfl⟩, rfl, rfl⟩ := h
  have r₁ : Read true levels c c₁ _ [n.tree] := variableName_reads ready named
  have r₂ : Read true levels c c₂ _ [n.tree] := r₁.skip (expect_reads (r₁.ready ready) colon)
  have r₃ := r₂.trans (typeRef_reads levels (r₂.ready ready) typed)
  have default := optionalDefault_reads _ (r₃.ready ready) defaulted
  have r₄ := r₃.trans default
  have directives := constDirectives_reads (r₄.ready ready) applied
  have lawful : (∀ x ∈ v, x.tree.IsConst) ∧ AllConst ds := by
    refine ⟨?_, directives.isConst⟩
    intro x hx
    exact default.isConst x (Option.mem_toList.mpr hx)
  exact (r₄.trans directives).node (.variableDefinition ⟨some o, n, t, v, ds⟩) rfl
    (congrArg some origin) lawful (by simp [Node.kind])

/-- An operation from its variables on. -/
theorem operationRest_reads {d : OperationDefinition} {kind : OperationKind} {n : Option Name}
    {c₁ : Cursor} (ready : c.Ready)
    (r : Read false levels c c₁ (keyword kind.keyword * maybe (·.spelling) n)
      (n.toList.map (·.tree)))
    (h : (do
      let variableDefinitions ← optionalMany .openParen .closeParen (variableDefinition levels)
      let ds ← directives (value none levels)
      let inner ← selectionSet levels
      return ⟨some (← spanFrom c.current.start), kind, n, variableDefinitions, ds, inner⟩ :
      Parser OperationDefinition) c₁ = .ok (d, c')) :
    Read false levels c c' (d.spelling .free) [d.tree] := by
  simp only [bind_ok, spanFrom_ok, pure_ok] at h
  obtain ⟨vs, c₂, declared, ds, c₃, applied, s, c₄, selected, o, _, ⟨origin, rfl⟩, rfl, rfl⟩ := h
  have declarations := optionalMany_reads variableDefinition_reads _ _ (r.ready ready) declared
  have r₁ := r.trans declarations.relax
  have r₂ := r₁.trans (directives_reads (value_reads none levels) (r₁.ready ready) applied)
  have r₃ := r₂.trans (selectionSet_reads levels (r₂.ready ready) selected)
  exact Read.node (.operation ⟨some o, kind, n, vs, ds, s⟩) (r₃.mono fun ks => .inl) rfl
    (congrArg some origin) trivial (by simp [Node.kind])

theorem operation_reads :
    Reads false levels (operation levels) (·.spelling .free) fun d => [d.tree] := by
  intro c c' d ready h
  simp only [operation, lifted_self, bind_ok, here_ok, atMark_ok] at h
  obtain ⟨_, _, ⟨rfl, rfl⟩, _, _, ⟨rfl, rfl⟩, h⟩ := h
  split at h
  · simp only [bind_ok, spanFrom_ok, pure_ok] at h
    obtain ⟨s, c₁, selected, o, _, ⟨origin, rfl⟩, rfl, rfl⟩ := h
    have r := selectionSet_reads levels ready selected
    exact Read.node (.operation ⟨some o, .query, none, [], [], s⟩)
      (r.mono fun ks spelled => .inr ⟨rfl, ⟨rfl, rfl, rfl, rfl⟩, spelled⟩) rfl
      (congrArg some origin) trivial (by simp [Node.kind])
  · simp only [bind_ok, peek_ok] at h
    obtain ⟨kind, c₁, introduced, _, _, ⟨rfl, rfl⟩, h⟩ := h
    have r₁ : Read false levels c c₁ _ [] := operationKind_reads ready introduced
    split at h
    · obtain ⟨_, c₂, mapped, h⟩ := bind_ok.mp h
      obtain ⟨n, named, rfl⟩ := map_ok.mp mapped
      exact operationRest_reads ready (r₁.trans (name_reads (r₁.ready ready) named)) h
    · obtain ⟨_, c₂, nothing, h⟩ := bind_ok.mp h
      obtain ⟨rfl, rfl⟩ := pure_ok.mp nothing
      exact operationRest_reads ready (r₁.skip (.refl c₁)) h

theorem fragment_reads : Reads false levels (fragment levels) (·.spelling) fun d => [d.tree] := by
  intro c c' d ready h
  simp only [fragment, lifted_self, bind_ok, here_ok, spanFrom_ok, pure_ok] at h
  obtain ⟨_, _, ⟨rfl, rfl⟩, _, c₁, introduced, n, c₂, named, _, c₃, on, t, c₄, conditioned, ds, c₅,
    applied, s, c₆, selected, o, _, ⟨origin, rfl⟩, rfl, rfl⟩ := h
  obtain ⟨named, free⟩ := unreservedName_ok named
  have r₁ : Read false levels c c₁ _ [] := expectKeyword_reads ready introduced
  have r₂ := r₁.trans (name_reads (r₁.ready ready) named)
  have r₃ : Read false levels c c₃ _ _ := r₂.skip (expectKeyword_reads (r₂.ready ready) on)
  have r₄ := r₃.trans (namedType_reads (r₃.ready ready) conditioned)
  have r₅ := r₄.trans (directives_reads (value_reads none levels) (r₄.ready ready) applied)
  have r₆ := r₅.trans (selectionSet_reads levels (r₅.ready ready) selected)
  have lawful : n.value ≠ "on" := by simpa [reservedWords] using free
  exact r₆.node (.fragment ⟨some o, n, t, ds, s⟩) rfl (congrArg some origin) lawful
    (by simp [Node.kind])

end GraphQL.Parser
