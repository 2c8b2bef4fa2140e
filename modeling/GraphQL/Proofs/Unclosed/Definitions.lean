import GraphQL.Proofs.Unclosed.Productions

/-! Definitions keep track of the marks that are open. What each is about is told by its first token, or by
the one behind its description. -/
namespace GraphQL

namespace Topic

theorem ofLead_keyword {k : TokenKind} {w : DefinitionKeyword}
    (known : DefinitionKeyword.ofToken? k = some w) : ofLead k = match w with
      | .operation _ | .fragment => .executable
      | .directive => .directive
      | _ => .typeSystem := by
  have kind := DefinitionKeyword.ofToken?_eq_some known
  subst kind
  cases w with
  | operation kind => cases kind <;> rfl
  | type form => cases form <;> rfl
  | _ => rfl

theorem ofDefinition_described {k lead : TokenKind} {ks : List TokenKind} (string : k.isString = true) :
    ofDefinition (k :: lead :: ks) = ofLead lead := by
  cases k <;> first | rfl | cases string

theorem ofDefinition_plain {lead : TokenKind} {ks : List TokenKind} (plain : lead.isString = false) :
    ofDefinition (lead :: ks) = ofLead lead := by
  cases lead <;> first | rfl | cases plain

/-- The end of the input does not introduce anything. -/
theorem ofDefinition_end (ks later : List TokenKind) :
    ofDefinition (ks ++ .endOfInput :: later) = ofDefinition ks := by
  match ks with
  | [] => rfl
  | [k] => cases k <;> rfl
  | k :: lead :: ks => cases k <;> rfl

end Topic

namespace Parser

variable {levels : Nat} {topic : Topic} {c : Cursor}

theorem unmarked_start : Unmarked Progress.start.before := by simp [Unmarked, Progress.start]

/-- A run over a definition. All marks that it opens are closed behind it. -/
abbrev TracksDefinition (topic : Topic) (c : Cursor) (p : Parser Definition) : Prop :=
  TracksFrom topic c .start (Progress.start.Keeps Unmarked) p

theorem Tracks.definition {p : Parser Definition} (h : Tracks ⟨topic, none⟩ Unmarked p Unmarked)
    (silent : c.Silent) : TracksDefinition topic c p := h silent rfl unmarked_start

theorem typeDefinition_tracks {t : Token} {form : TypeForm} (silent : c.Silent) (leads : Leads c t)
    (kind : t.kind = .name form.keyword) :
    TracksDefinition .typeSystem c (.type <$> typeDefinition (levels + 1) form) := by
  have description : Tracks ⟨.typeSystem, none⟩ Unmarked optionalString Unmarked :=
    optionalString_tracks
  rw [map_eq_pure_bind]
  refine TracksAt.returns <| TracksFrom.look .here fun _ _ =>
    TracksAt.bind silent (description silent rfl unmarked_start)
      fun o c' r described silent' keeps => ?_
  have current := leads.optionalString silent.ready described
  have word : TracksFrom .typeSystem c' r (r.Keeps Unmarked) consume :=
    .consume_word silent' (by simp [current, kind]) (by simp [current, kind])
  exact (word.goes_on silent' (keeps.setting rfl) fun _ => name_unmarked.bind fun _ =>
    (typeBody_tracks levels form).bind fun _ => .spanned).mono fun _ => keeps.trans

/-- An extension is known by the word after the current one. -/
theorem extension_tracks (silent : c.Silent) (kind : c.current.kind = .name "extend") :
    TracksDefinition .typeSystem c (extension (levels + 1)) := by
  have more : c.current.kind ≠ .endOfInput := by simp [kind]
  have first : TracksFrom .typeSystem c .start (Progress.start.Keeps Unmarked) consume :=
    .consume_word silent more (by simp [kind])
  refine .look .here fun start _ => .lookahead silent more fun c' steps => ?_
  have additions {p : Parser Definition} {w : DefinitionKeyword}
      (known : DefinitionKeyword.ofToken? c'.current.kind = some w)
      (tracks : Tracks ⟨.typeSystem, none⟩ Unmarked p Unmarked) :
      TracksDefinition .typeSystem c (consume >>= fun _ => consume >>= fun _ => p) := by
    refine TracksAt.bind silent first fun t d r consumed silent' keeps => ?_
    obtain ⟨-, steps'⟩ := consume_reads silent.ready more consumed
    have word : d.current.kind = .name w.text := by
      rw [(steps'.same_current steps rfl).2]
      exact DefinitionKeyword.ofToken?_eq_some known
    have second : TracksFrom .typeSystem d r (r.Keeps Unmarked) consume :=
      .consume_word silent' (by simp [word]) (by simp [word])
    exact (second.goes_on silent' (keeps.setting rfl) fun _ => tracks).mono fun _ => keeps.trans
  have misfit : TracksDefinition .typeSystem c (unexpectedAt c'.current (some .extension)) := by
    have passed : Progress.start.pass .typeSystem c.current = _ :=
      Progress.pass_flat (by rw [kind]; rfl)
    exact .error (SyntaxError.Tells.here.behind steps (Progress.after_one.trans passed) rfl)
  obtain ⟨found, known⟩ : ∃ w, DefinitionKeyword.ofToken? c'.current.kind = w := ⟨_, rfl⟩
  cases found with
  | none => simpa only [known, lifted_self] using misfit
  | some w =>
    cases w with
    | schema =>
      simpa only [known, lifted_self] using additions known (schemaExtension_tracks _ start).map
    | type form =>
      simpa only [known, lifted_self] using additions known (typeExtension_tracks _ start form).map
    | _ => simpa only [known, lifted_self] using misfit

theorem definitionBy_tracks {t : Token} (silent : c.Silent) (leads : Leads c t) :
    TracksDefinition (.ofLead t.kind) c (definitionBy (levels + 1) c.current t) := by
  refine .ite (fun _ => .look (.originOf _) fun _ _ => .fail (by rintro ⟨_, ⟨⟩⟩))
    fun fitting => ?_
  cases known : DefinitionKeyword.ofToken? t.kind with
  | none => exact .unexpected _
  | some w =>
    have kind := DefinitionKeyword.ofToken?_eq_some known
    rw [Topic.ofLead_keyword known]
    cases w with
    | operation k => exact (operation_tracks (levels + 1)).map.definition silent
    | fragment => exact (fragment_tracks (levels + 1)).map.definition silent
    | schema => exact (schemaDefinition_tracks (levels + 1)).map.definition silent
    | directive => exact (directiveDefinition_tracks levels).map.definition silent
    | extend =>
      have plain : c.current.kind.isString = false := by
        simpa [known, DefinitionKeyword.isDescribable] using fitting
      exact extension_tracks silent (leads.bare plain ▸ kind)
    | type form => exact typeDefinition_tracks silent leads kind

/-- The topic of a definition is told by the tokens that are left. -/
theorem definition_tracks (silent : c.Silent) :
    TracksDefinition (.ofDefinition (kinds c.pending)) c (definition (levels + 1)) := by
  refine .look .peek fun t seen => ?_
  obtain ⟨rfl, -⟩ := peek_ok.mp seen
  refine .ite (fun brace => ?_) fun _ => .ite (fun string => ?_) fun plain => .look .peek fun t seen => ?_
  · have topic : Topic.ofDefinition (kinds c.pending) = .executable := by
      rw [Cursor.pending, kinds, List.map_cons, brace]
      rfl
    rw [topic]
    exact (operation_tracks (levels + 1)).map.definition silent
  · have more : c.current.kind ≠ .endOfInput := by
      intro kind
      simp [kind, TokenKind.isString] at string
    refine .lookahead silent more fun c' steps => ?_
    have topic : Topic.ofDefinition (kinds c.pending) = .ofLead c'.current.kind := by
      rw [steps.pending]
      exact Topic.ofDefinition_described string
    rw [topic]
    refine definitionBy_tracks silent ⟨fun _ u d ran => ?_, by simp [string]⟩
    obtain ⟨-, steps'⟩ := consume_reads silent.ready more ran
    exact (steps'.same_current steps rfl).2
  · obtain ⟨rfl, -⟩ := peek_ok.mp seen
    have topic : Topic.ofDefinition (kinds c.pending) = .ofLead c.current.kind :=
      Topic.ofDefinition_plain (by simpa using plain)
    rw [topic]
    exact definitionBy_tracks silent ⟨by simp [plain], fun _ => rfl⟩

end Parser
end GraphQL
