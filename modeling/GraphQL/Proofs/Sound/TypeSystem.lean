import GraphQL.Parser.TypeSystem
import GraphQL.Proofs.Sound.Executable

/-! What the parsers of schemas, types, directives and extensions read. Nothing varies in them. A
description counts as a level of nesting, so there has to be one. -/
namespace GraphQL

theorem DefinitionKeyword.ofToken?_eq_some {k : TokenKind} {w : DefinitionKeyword}
    (h : ofToken? k = some w) : k = .name w.text := by
  cases k with
  | name text =>
    have spelled : w.text = text := by simpa using List.find?_some h
    rw [spelled]
  | _ => simp [ofToken?] at h

theorem TypeBody.isEmpty_iff {b : TypeBody} :
    b.isEmpty = true ↔ b.leadingTrees = [] ∧ b.trailingTrees = [] := by
  cases b <;> simp [isEmpty, leadingTrees, trailingTrees]

namespace Parser

open Spelling

variable {const : Bool} {levels : Nat} {c c' : Cursor}

theorem interfaces_reads :
    Reads const levels interfaces (introduced .free (keyword "implements") .ampersand)
      (·.map (·.tree)) := by
  intro c c' ts ready h
  simp only [interfaces, lifted_self, bind_ok] at h
  obtain ⟨b, c₁, accepted, h⟩ := h
  rcases acceptKeyword_reads const levels ready accepted with ⟨rfl, word⟩ | ⟨rfl, rfl⟩
  · rw [if_pos rfl] at h
    obtain ⟨t, ts, rfl⟩ := List.exists_cons_of_ne_nil (separated_ne_nil h)
    exact word.trans (separated_reads namedType_reads _ (word.ready ready) h)
  · rw [if_neg (by simp)] at h
    obtain ⟨rfl, rfl⟩ := pure_ok.mp h
    exact .refl c

theorem members_reads :
    Reads const levels members (introduced .free (mark .equals) .pipe) (·.map (·.tree)) := by
  intro c c' ts ready h
  simp only [members, lifted_self, bind_ok] at h
  obtain ⟨b, c₁, accepted, h⟩ := h
  rcases accept_reads const levels ready accepted with ⟨rfl, equals⟩ | ⟨rfl, rfl⟩
  · rw [if_pos rfl] at h
    obtain ⟨t, ts, rfl⟩ := List.exists_cons_of_ne_nil (separated_ne_nil h)
    exact equals.trans (separated_reads namedType_reads _ (equals.ready ready) h)
  · rw [if_neg (by simp)] at h
    obtain ⟨rfl, rfl⟩ := pure_ok.mp h
    exact .refl c

theorem inputDefinition_reads :
    Reads true (levels + 1) (inputDefinition (levels + 1)) (·.spelling) fun d => [d.tree] := by
  intro c c' d ready h
  simp only [inputDefinition, lifted_self, bind_ok, here_ok, spanFrom_ok, pure_ok] at h
  obtain ⟨_, _, ⟨rfl, rfl⟩, description, c₁, described, n, c₂, named, _, c₃, colon, t, c₄, typed,
    v, c₅, defaulted, ds, c₆, applied, o, _, ⟨origin, rfl⟩, rfl, rfl⟩ := h
  have r₁ : Read true (levels + 1) c c₁ _ _ := optionalString_reads ready described
  have r₂ := r₁.trans (name_reads (r₁.ready ready) named)
  have r₃ : Read true (levels + 1) c c₃ _ _ := r₂.skip (expect_reads (r₂.ready ready) colon)
  have r₄ := r₃.trans (typeRef_reads _ (r₃.ready ready) typed)
  have default := optionalDefault_reads _ (r₄.ready ready) defaulted
  have r₅ := r₄.trans default
  have directives := constDirectives_reads (r₅.ready ready) applied
  have lawful : (∀ x ∈ v, x.tree.IsConst) ∧ AllConst ds := by
    refine ⟨?_, directives.isConst⟩
    intro x hx
    exact default.isConst x (Option.mem_toList.mpr hx)
  have r := r₅.trans directives
  rw [List.append_assoc (List.map _ _)] at r
  exact r.node (.inputDefinition ⟨some o, description, n, t, v, ds⟩) rfl (congrArg some origin)
    lawful (by simp [Node.kind])

theorem argumentDefinitions_reads :
    Reads true (levels + 1) (argumentDefinitions (levels + 1)) argumentsSpelling
      (·.map (·.tree)) :=
  optionalMany_reads inputDefinition_reads _ _

theorem fieldDefinition_reads :
    Reads true (levels + 1) (fieldDefinition (levels + 1)) (·.spelling) fun d => [d.tree] := by
  intro c c' d ready h
  simp only [fieldDefinition, lifted_self, bind_ok, here_ok, spanFrom_ok, pure_ok] at h
  obtain ⟨_, _, ⟨rfl, rfl⟩, description, c₁, described, n, c₂, named, as, c₃, taken, _, c₄, colon,
    t, c₅, typed, ds, c₆, applied, o, _, ⟨origin, rfl⟩, rfl, rfl⟩ := h
  have r₁ : Read true (levels + 1) c c₁ _ _ := optionalString_reads ready described
  have r₂ := r₁.trans (name_reads (r₁.ready ready) named)
  have r₃ := r₂.trans (argumentDefinitions_reads (r₂.ready ready) taken)
  have r₄ : Read true (levels + 1) c c₄ _ _ := r₃.skip (expect_reads (r₃.ready ready) colon)
  have r₅ := r₄.trans (typeRef_reads _ (r₄.ready ready) typed)
  have directives := constDirectives_reads (r₅.ready ready) applied
  exact (r₅.trans directives).node (.fieldDefinition ⟨some o, description, n, as, t, ds⟩) rfl
    (congrArg some origin) directives.isConst (by simp [Node.kind])

theorem enumValueDefinition_reads :
    Reads true (levels + 1) (enumValueDefinition (levels + 1)) (·.spelling)
      fun d => [d.tree] := by
  intro c c' d ready h
  simp only [enumValueDefinition, lifted_self, bind_ok, here_ok, spanFrom_ok, pure_ok] at h
  obtain ⟨_, _, ⟨rfl, rfl⟩, description, c₁, described, n, c₂, named, ds, c₃, applied, o, _,
    ⟨origin, rfl⟩, rfl, rfl⟩ := h
  obtain ⟨named, free⟩ := unreservedName_ok named
  have r₁ : Read true (levels + 1) c c₁ _ _ := optionalString_reads ready described
  have r₂ := r₁.trans (name_reads (r₁.ready ready) named)
  have directives := constDirectives_reads (r₂.ready ready) applied
  exact (r₂.trans directives).node (.enumValueDefinition ⟨some o, description, n, ds⟩) rfl
    (congrArg some origin) ⟨free, directives.isConst⟩ (by simp [Node.kind])

theorem typeBody_form {form : TypeForm} {r : List Directive × TypeBody}
    (h : typeBody (m := Parser) levels form c = .ok (r, c')) : r.2.form = form := by
  cases form <;> simp only [typeBody, bind_ok, pure_ok] at h
  all_goals grind [TypeBody.form]

theorem typeBody_reads (form : TypeForm) :
    Reads true (levels + 1) (typeBody (levels + 1) form)
      (fun r => r.2.leadingSpelling .free * row (·.spelling) r.1 * r.2.trailingSpelling .free)
      (fun r => r.2.leadingTrees ++ r.1.map (·.tree) ++ r.2.trailingTrees) := by
  intro c c' r ready h
  cases form with
  | scalar =>
    simp only [typeBody, bind_ok, pure_ok] at h
    obtain ⟨ds, c₁, applied, rfl, rfl⟩ := h
    have r₁ := (Read.refl c).trans (constDirectives_reads ready applied)
    exact r₁.trans (.refl c₁)
  | object | interface =>
    simp only [typeBody, bind_ok, pure_ok] at h
    obtain ⟨is, c₁, implemented, ds, c₂, applied, fs, c₃, listed, rfl, rfl⟩ := h
    have r₁ : Read true (levels + 1) c c₁ _ _ := interfaces_reads ready implemented
    have r₂ := r₁.trans (constDirectives_reads (r₁.ready ready) applied)
    exact r₂.trans (optionalMany_reads fieldDefinition_reads _ _ (r₂.ready ready) listed)
  | union =>
    simp only [typeBody, bind_ok, pure_ok] at h
    obtain ⟨ds, c₁, applied, ms, c₂, listed, rfl, rfl⟩ := h
    have r₁ := (Read.refl c).trans (constDirectives_reads ready applied)
    exact r₁.trans (members_reads (r₁.ready ready) listed)
  | enum =>
    simp only [typeBody, bind_ok, pure_ok] at h
    obtain ⟨ds, c₁, applied, vs, c₂, listed, rfl, rfl⟩ := h
    have r₁ := (Read.refl c).trans (constDirectives_reads ready applied)
    exact r₁.trans (optionalMany_reads enumValueDefinition_reads _ _ (r₁.ready ready) listed)
  | inputObject =>
    simp only [typeBody, bind_ok, pure_ok] at h
    obtain ⟨ds, c₁, applied, fs, c₂, listed, rfl, rfl⟩ := h
    have r₁ := (Read.refl c).trans (constDirectives_reads ready applied)
    exact r₁.trans (optionalMany_reads inputDefinition_reads _ _ (r₁.ready ready) listed)

/-- A type after its keyword. -/
theorem typeRest_reads {form : TypeForm} {n : Name} {ds : List Directive} {body : TypeBody}
    {c₁ : Cursor} (ready : c.Ready) (named : name c = .ok (n, c₁))
    (filled : typeBody (m := Parser) (levels + 1) form c₁ = .ok ((ds, body), c')) :
    Read true (levels + 1) c c' (typeSpelling .free n ds body)
      ([n.tree] ++ body.leadingTrees ++ ds.map (·.tree) ++ body.trailingTrees) := by
  have r₁ : Read true (levels + 1) c c₁ _ _ := name_reads ready named
  have r₂ := r₁.trans (typeBody_reads form (r₁.ready ready) filled)
  simp only [← mul_assoc, ← List.append_assoc] at r₂
  exact r₂

/-- A type, where a keyword stands after the description. -/
theorem typeDefinition_reads {form : TypeForm} {d : TypeDefinition} (ready : c.Ready)
    (introduced : ∀ o c₁, optionalString c = .ok (o, c₁) → c₁.current.kind = .name form.keyword)
    (h : typeDefinition (m := Parser) (levels + 1) form c = .ok (d, c')) :
    Read true (levels + 1) c c' (d.spelling .free) [d.tree] := by
  simp only [typeDefinition, lifted_self, bind_ok, here_ok, spanFrom_ok, pure_ok] at h
  obtain ⟨_, _, ⟨rfl, rfl⟩, description, c₁, described, _, c₂, consumed, n, c₃, named, ⟨ds, body⟩,
    c₄, filled, o, _, ⟨origin, rfl⟩, rfl, rfl⟩ := h
  have r₁ : Read true (levels + 1) c c₁ _ _ := optionalString_reads ready described
  have keyword : c₁.current.kind = .name body.form.keyword := by
    rw [typeBody_form filled]
    exact introduced _ _ described
  have r₂ := r₁.skip (consume_word (r₁.ready ready) keyword (by simp) consumed)
  have rest := typeRest_reads (r₂.ready ready) named filled
  have directives : AllConst ds := by
    intro d hd
    exact (rest.legal d.tree (by simp; grind)).isConst
  have r := r₂.trans rest
  simp only [← List.append_assoc] at r
  exact r.node (.typeDefinition ⟨some o, description, n, ds, body⟩) rfl (congrArg some origin)
    directives (by simp [Node.kind])

theorem rootType_reads : Reads const levels rootType (·.spelling) fun t => [t.tree] := by
  intro c c' t ready h
  simp only [rootType, bind_ok, here_ok, spanFrom_ok, pure_ok] at h
  obtain ⟨_, _, ⟨rfl, rfl⟩, kind, c₁, introduced, _, c₂, colon, t, c₃, named, o, _, ⟨origin, rfl⟩,
    rfl, rfl⟩ := h
  have r₁ : Read const levels c c₁ _ [] := operationKind_reads ready introduced
  have r₂ : Read const levels c c₂ _ [] := r₁.skip (expect_reads (r₁.ready ready) colon)
  exact (r₂.trans (namedType_reads (r₂.ready ready) named)).node (.rootType ⟨some o, kind, t⟩) rfl
    (congrArg some origin) trivial (by simp [Node.kind])

theorem schemaDefinition_reads :
    Reads true (levels + 1) (schemaDefinition (levels + 1)) (·.spelling) fun d => [d.tree] := by
  intro c c' d ready h
  simp only [schemaDefinition, lifted_self, bind_ok, here_ok, spanFrom_ok, pure_ok] at h
  obtain ⟨_, _, ⟨rfl, rfl⟩, description, c₁, described, _, c₂, introduced, ds, c₃, applied, ts, c₄,
    listed, o, _, ⟨origin, rfl⟩, rfl, rfl⟩ := h
  have r₁ : Read true (levels + 1) c c₁ _ _ := optionalString_reads ready described
  have r₂ : Read true (levels + 1) c c₂ _ _ :=
    r₁.skip (expectKeyword_reads (r₁.ready ready) introduced)
  have directives := constDirectives_reads (r₂.ready ready) applied
  have r₃ := r₂.trans directives
  have r := r₃.trans (many_reads rootType_reads _ _ (r₃.ready ready) listed)
  simp only [← mul_assoc] at r
  exact r.node (.schema ⟨some o, description, ds, ts⟩) rfl (congrArg some origin)
    ⟨directives.isConst, many_ne_nil listed⟩ (by simp [Node.kind])

theorem directiveLocation_ok {n : Name} (h : directiveLocation c = .ok (n, c')) :
    name c = .ok (n, c') ∧ ∃ l : DirectiveLocation, n.value = l.name := by
  simp only [directiveLocation, bind_ok, peek_ok] at h
  obtain ⟨_, _, ⟨rfl, rfl⟩, n', c₁, named, h⟩ := h
  cases known : DirectiveLocation.ofName? n'.value with
  | none => simp [known] at h
  | some l =>
    simp only [known, pure_ok] at h
    obtain ⟨rfl, rfl⟩ := h
    have spelled : l.name = n'.value := by simpa using List.find?_some known
    exact ⟨named, l, spelled.symm⟩

theorem directiveDefinition_reads :
    Reads true (levels + 1) (directiveDefinition (levels + 1)) (·.spelling .free)
      fun d => [d.tree] := by
  intro c c' d ready h
  simp only [directiveDefinition, lifted_self, bind_ok, here_ok, spanFrom_ok, pure_ok] at h
  obtain ⟨_, _, ⟨rfl, rfl⟩, description, c₁, described, _, c₂, introduced, _, c₃, at_sign, n, c₄,
    named, as, c₅, taken, b, c₆, repeated, _, c₇, on, ls, c₈, located, o, _, ⟨origin, rfl⟩, rfl,
    rfl⟩ := h
  have r₁ : Read true (levels + 1) c c₁ _ _ := optionalString_reads ready described
  have r₂ : Read true (levels + 1) c c₂ _ _ :=
    r₁.skip (expectKeyword_reads (r₁.ready ready) introduced)
  have r₃ : Read true (levels + 1) c c₃ _ _ := r₂.skip (expect_reads (r₂.ready ready) at_sign)
  have r₄ := r₃.trans (name_reads (r₃.ready ready) named)
  have r₅ := r₄.trans (argumentDefinitions_reads (r₄.ready ready) taken)
  have word : Read true (levels + 1) c₅ c₆ (repeatableSpelling b) [] := by
    rcases acceptKeyword_reads true (levels + 1) (r₅.ready ready) repeated with
      ⟨rfl, word⟩ | ⟨rfl, rfl⟩
    · exact word
    · exact .refl c₅
  have r₆ := r₅.skip word
  have r₇ : Read true (levels + 1) c c₇ _ _ := r₆.skip (expectKeyword_reads (r₆.ready ready) on)
  have locations : Reads true (levels + 1) directiveLocation (·.spelling) fun n => [n.tree] :=
    fun _ _ _ ready h => name_reads ready (directiveLocation_ok h).1
  have r := r₇.trans (separated_reads locations _ (r₇.ready ready) located)
  have known : ∀ n ∈ ls, ∃ l : DirectiveLocation, n.value = l.name := by
    intro n hn
    obtain ⟨_, _, found⟩ := separated_items located n hn
    exact (directiveLocation_ok found).2
  exact r.node (.directiveDefinition ⟨some o, description, n, as, b, ls⟩) rfl (congrArg some origin)
    ⟨separated_ne_nil located, known⟩ (by simp [Node.kind])

theorem schemaExtension_reads {e : SchemaExtension} {start : Position} {c₁ : Cursor}
    (ready : c.Ready) (starts : start = c.current.start)
    (r : Read true (levels + 1) c c₁ (keyword "extend" * keyword "schema") [])
    (h : schemaExtension (m := Parser) (levels + 1) start c₁ = .ok (e, c')) :
    Read true (levels + 1) c c' e.spelling [e.tree] := by
  simp only [schemaExtension, lifted_self, bind_ok] at h
  obtain ⟨ds, c₂, applied, ts, c₃, listed, h⟩ := h
  split at h
  · simp at h
  · next additions =>
    simp only [bind_ok, spanFrom_ok, pure_ok] at h
    obtain ⟨o, _, ⟨origin, rfl⟩, rfl, rfl⟩ := h
    have directives := constDirectives_reads (r.ready ready) applied
    have r₁ := r.trans directives
    have r₂ := r₁.trans (optionalMany_reads rootType_reads _ _ (r₁.ready ready) listed)
    have lawful : AllConst ds ∧ (ds ≠ [] ∨ ts ≠ []) := by
      refine ⟨directives.isConst, ?_⟩
      simpa [← not_and_or] using additions
    exact r₂.node (.schemaExtension ⟨some o, ds, ts⟩) rfl (congrArg some (starts ▸ origin)) lawful
      (by simp [Node.kind])

theorem typeExtension_reads {form : TypeForm} {e : TypeExtension} {start : Position} {c₁ : Cursor}
    (ready : c.Ready) (starts : start = c.current.start)
    (r : Read true (levels + 1) c c₁ (keyword "extend" * keyword form.keyword) [])
    (h : typeExtension (m := Parser) (levels + 1) start form c₁ = .ok (e, c')) :
    Read true (levels + 1) c c' (e.spelling .free) [e.tree] := by
  simp only [typeExtension, lifted_self, bind_ok] at h
  obtain ⟨n, c₂, named, ⟨ds, body⟩, c₃, filled, h⟩ := h
  split at h
  · simp at h
  · next additions =>
    simp only [bind_ok, spanFrom_ok, pure_ok] at h
    obtain ⟨o, _, ⟨origin, rfl⟩, rfl, rfl⟩ := h
    have rest := typeRest_reads (r.ready ready) named filled
    have directives : AllConst ds := by
      intro d hd
      exact (rest.legal d.tree (by simp; grind)).isConst
    have lawful : AllConst ds ∧ (ds ≠ [] ∨ body.leadingTrees ≠ [] ∨ body.trailingTrees ≠ []) := by
      refine ⟨directives, ?_⟩
      rw [Bool.and_eq_true, TypeBody.isEmpty_iff, List.isEmpty_iff] at additions
      grind
    rw [← typeBody_form filled] at r
    exact (r.trans rest).node (.typeExtension ⟨some o, n, ds, body⟩) rfl
      (congrArg some (starts ▸ origin)) lawful (by simp [Node.kind])

/-- What `lookahead` tells is what `consume` moves to. -/
theorem lookahead_ok {t : Token} (ready : c.Ready) (more : c.current.kind ≠ .endOfInput)
    (h : lookahead c = .ok (t, c')) :
    c = c' ∧ ∀ ⦃u c₁⦄, consume c = .ok (u, c₁) → c₁.current = t := by
  unfold lookahead at h
  split at h
  · next v vs hv =>
    cases h
    refine ⟨rfl, ?_⟩
    intro u c₁ consumed
    simp only [consume, hv] at consumed
    cases consumed
    rfl
  · next hv =>
    split at h
    · cases h
    · next none => exact absurd (ready.kind_of_last hv none) more

theorem extension_reads {d : Definition} (ready : c.Ready)
    (introduced : c.current.kind = .name "extend")
    (h : extension (m := Parser) (levels + 1) c = .ok (d, c')) :
    Read true (levels + 1) c c' (d.spelling .free) [d.tree] := by
  simp only [extension, lifted_self, bind_ok, here_ok] at h
  obtain ⟨_, _, ⟨rfl, rfl⟩, next, c₁, found, h⟩ := h
  obtain ⟨rfl, ahead⟩ := lookahead_ok ready (by simp [introduced]) found
  cases known : DefinitionKeyword.ofToken? next.kind with
  | none => simp [known] at h
  | some w =>
    have kind := DefinitionKeyword.ofToken?_eq_some known
    have words {u u' : Token} {c₁ c₂ : Cursor} (first : consume c = .ok (u, c₁))
        (second : consume c₁ = .ok (u', c₂)) :
        Read true (levels + 1) c c₂ (keyword "extend" * keyword w.text) [] := by
      have r₁ : Read true (levels + 1) c c₁ _ [] := consume_word ready introduced (by simp) first
      rw [← ahead first] at kind
      exact r₁.trans (consume_word (r₁.ready ready) kind (by simp) second)
    cases w with
    | schema =>
      simp only [known, bind_ok, map_ok] at h
      obtain ⟨_, c₁, first, _, c₂, second, e, extended, rfl⟩ := h
      exact schemaExtension_reads ready rfl (words first second) extended
    | type form =>
      simp only [known, bind_ok, map_ok] at h
      obtain ⟨_, c₁, first, _, c₂, second, e, extended, rfl⟩ := h
      exact typeExtension_reads ready rfl (words first second) extended
    | _ => simp [known] at h

end Parser
end GraphQL
