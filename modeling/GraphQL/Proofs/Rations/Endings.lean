import GraphQL.Proofs.Parser.Runs
import GraphQL.Proofs.Rations.Productions
import GraphQL.Proofs.Viable.Misfits

/-! Parsing ends. A parser is always at a place in the tokens of its source. From there every item goes on
to a token that starts further on. So the tokens of a text and the limit of nesting tell what rations
last for it. -/
namespace GraphQL

open GraphQL.Parser

variable {α : Type} {s : Source} {c c' : Cursor} {calls levels rounds limit : Nat}

/-- A place in the tokens of a source, from before the first one on. -/
structure Cursor.On (c : Cursor) (s : Source) : Prop where
  source : c.source = s
  pending : c.pending <:+ ⟨.startOfInput, .first, .first⟩ :: s.tokens.tokens
  failure : c.failure = s.tokens.failure

namespace Cursor.On

theorem start (s : Source) (limit : Nat) : (Parser.start s limit).On s := ⟨rfl, List.suffix_rfl, rfl⟩

theorem reaches (on : c.On s) (reaches : c.Reaches c') : c'.On s where
  source := reaches.source.trans on.source
  pending := reaches.pending.trans on.pending
  failure := reaches.failure.trans on.failure

theorem ready (on : c.On s) : c.Ready := by
  obtain ⟨us, words, ends⟩ := (Scanner.start s).tokens_words
  have pending := on.pending
  have failure := on.failure
  rw [Source.tokens] at pending failure
  constructor
  · intro none t ht
    rcases ends with ⟨-, cut⟩ | ⟨e, stream, last⟩
    · exact absurd (failure ▸ none) cut
    · obtain ⟨before, tokens⟩ := pending
      have same : (before ++ c.pending).getLast? = some t := by
        rw [List.getLast?_append, Option.mem_def.mp ht]
        rfl
      rw [tokens, stream, ← List.cons_append, List.getLast?_concat] at same
      exact Option.some.inj same ▸ last
  · intro t ht text kind
    rcases List.mem_cons.mp (pending.mem ht) with rfl | ht
    · cases kind
    · rcases ends with ⟨stream, -⟩ | ⟨e, stream, last⟩
      · exact (words t (stream ▸ ht)).name text kind
      · rw [stream, List.mem_append, List.mem_singleton] at ht
        rcases ht with ht | rfl
        · exact (words t ht).name text kind
        · rw [last] at kind
          cases kind

/-- Before the first token, or at one of the tokens. -/
theorem begun_or (on : c.On s) : c.current.kind = .startOfInput ∨ c.pending <:+ s.tokens.tokens := by
  refine (List.suffix_cons_iff.mp on.pending).imp_left fun all => ?_
  rw [(List.cons.inj all).1]

/-- The end of the input is the last token. -/
theorem upcoming_nil (on : c.On s) (at_end : c.current.kind = .endOfInput) : c.upcoming = [] := by
  rcases on.begun_or with start | ⟨before, tokens⟩
  · rw [start] at at_end
    cases at_end
  · obtain ⟨e, -, all⟩ := (Source.Words.of_append tokens.symm at_end).ended
    rw [all] at tokens
    exact (List.cons.inj (List.append_cancel_left tokens)).2

/-- Behind the beginning of the input the tokens that are to come start further on. -/
theorem starts_further (on : c.On s) (begun : c.current.kind ≠ .startOfInput) {t : Token}
    (ahead : t ∈ c.upcoming) : c.current.start.offset < t.start.offset := by
  have starts := (Scanner.start s).starts_increase.sublist (on.begun_or.resolve_left begun).sublist
  exact List.rel_of_pairwise_cons starts ahead

end Cursor.On

namespace Rationed

/-- Whatever is an item of a list or of a document: its parser with rations, and the one without. -/
inductive Item (calls levels : Nat) : {α : Type} → Rationed α → Parser α → Prop
  | selection : Item calls levels (selection (value none calls) (selectionSet calls))
      (selection (value none levels) (selectionSet levels))
  | variableDefinition : Item calls levels (variableDefinition calls) (variableDefinition levels)
  | argument (position : Option ConstPosition) : Item calls levels
      (argument (value position calls)) (argument (value position levels))
  | value (position : Option ConstPosition) : Item calls levels (value position calls)
      (value position levels)
  | objectField (position : Option ConstPosition) : Item calls levels
      (objectField (value position calls)) (objectField (value position levels))
  | rootType : Item calls levels rootType rootType
  | namedType : Item calls levels namedType namedType
  | directiveLocation : Item calls levels directiveLocation directiveLocation
  | fieldDefinition : Item calls levels (fieldDefinition calls) (fieldDefinition levels)
  | inputDefinition : Item calls levels (inputDefinition calls) (inputDefinition levels)
  | enumValueDefinition : Item calls levels (enumValueDefinition calls) (enumValueDefinition levels)
  | directive (position : Option ConstPosition) : Item calls levels
      (directive (value position calls)) (directive (value position levels))
  | definition : Item calls levels (definition calls) (definition levels)

namespace Item

variable {p : Rationed α} {q : Parser α}

theorem lasts (item : Item calls levels p q) (enough : levels < calls) :
    Lasts ⟨rounds, levels⟩ 1 p q := by
  cases item with
  | selection => exact (Lasts.value none enough).selection (.selectionSet enough)
  | variableDefinition => exact .variableDefinition enough
  | argument position => exact (Lasts.value position enough).argument
  | value position => exact .value position enough
  | objectField position => exact (Lasts.value position enough).objectField
  | rootType => exact .lift .rootType
  | namedType => exact .lift .namedType
  | directiveLocation => exact .lift .directiveLocation
  | fieldDefinition => exact .fieldDefinition enough
  | inputDefinition => exact .inputDefinition enough
  | enumValueDefinition => exact .enumValueDefinition enough
  | directive position => exact (Lasts.value position enough).directive
  | definition => exact .definition enough

/-- No item starts before the first token. -/
theorem fails_at_start (item : Item calls levels p q) (start : c.current.kind = .startOfInput) :
    ∀ r, q c ≠ .ok r := by
  have no_name : ∀ r, name c ≠ .ok r := by simp [name, peek_bind, start]
  have no_description : optionalString c = .ok (none, c) := by
    rw [optionalString, peek_bind, start]
    rfl
  rintro ⟨a, c'⟩
  cases item with
  | selection => simp [Parser.selection, Parser.field, start, no_name]
  | variableDefinition => simp [Parser.variableDefinition, variableName, expect, start]
  | argument position => simp [Parser.argument, no_name]
  | value position => cases levels <;> simp [Parser.value, Parser.valueWith, leafValue, start]
  | objectField position => simp [Parser.objectField, no_name]
  | rootType => simp [Parser.rootType, operationKind, start]
  | namedType => simp [Parser.namedType, no_name]
  | directiveLocation => simp [Parser.directiveLocation, no_name]
  | fieldDefinition => simp [Parser.fieldDefinition, no_description, no_name]
  | inputDefinition => simp [Parser.inputDefinition, no_description, no_name]
  | enumValueDefinition => simp [Parser.enumValueDefinition, no_description, unreservedName, no_name]
  | directive position => simp [Parser.directive, expect, start]
  | definition =>
    simp [Parser.definition, definitionBy, DefinitionKeyword.ofToken?, start, TokenKind.isString]

/-- An item that succeeds takes a token, and the next one starts further on. -/
theorem goes_on (item : Item calls levels p q) (enough : levels < calls) (on : c.On s) {a : α}
    (ran : q c = .ok (a, c')) : c'.On s ∧ c.current.start.offset < c'.current.start.offset := by
  obtain ⟨reaches, taken⟩ := (item.lasts enough on.ready le_rfl).takes ran
  refine ⟨on.reaches reaches, on.starts_further (fun start => item.fails_at_start start _ ran) ?_⟩
  rcases List.suffix_cons_iff.mp reaches.pending with all | ahead
  · rw [all] at taken
    simp [Cursor.pending] at taken
  · exact ahead.mem List.mem_cons_self

theorem fails_at_end (item : Item calls levels p q) (enough : levels < calls) (on : c.On s)
    (at_end : c.current.kind = .endOfInput) (r : α × Cursor) : q c ≠ .ok r := by
  intro ran
  obtain ⟨-, taken⟩ := (item.lasts enough on.ready le_rfl).takes ran
  simp [Cursor.pending, on.upcoming_nil at_end] at taken

end Item
end Rationed

/-- Loops over an item do from some place what they do without rations. -/
structure Rationed.LoopsLast (ration : Ration) (c : Cursor) (p : Rationed α) (q : Parser α) :
    Prop where
  itemsUntil : ∀ close, itemsUntil close p ration c = some (itemsUntil close q c)
  separated : ∀ mark, separated mark p ration c = some (separated mark q c)
  whileAt : ∀ mark, whileAt mark p ration c = some (whileAt mark q c)

theorem Rationed.Lasts.loops {ration : Ration} {p : Rationed α} {q : Parser α}
    (items : Lasts ration 1 p q) (ready : c.Ready) (fits : c.pending.length ≤ ration.rounds) :
    LoopsLast ration c p q where
  itemsUntil close := (items.itemsUntil close ready fits).same
  separated mark := (items.separated mark ready fits).same
  whileAt mark := (items.whileAt mark ready fits).same

/-- With so many calls in one another and so many rounds of each loop, a source is read as it is without
rations. -/
structure Source.RationsLast (s : Source) (calls rounds limit : Nat) : Prop where
  document : s.rationedDocument calls rounds limit = some (s.documentWithin limit)
  value : s.rationedValue calls rounds limit = some (s.valueWithin limit)
  constValue : s.rationedConstValue calls rounds limit = some (s.constValueWithin limit)
  typeRef : s.rationedTypeRef calls rounds limit = some (s.typeRefWithin limit)

theorem Rationed.Lasts.run {p : Rationed α} {q : Parser α} (h : Lasts ⟨rounds, limit⟩ 1 p q)
    (fits : s.tokens.tokens.length ≤ rounds) :
    Rationed.run p s limit rounds = some (Parser.run q s limit) := by
  have ready := (Cursor.On.start s limit).ready
  have opening : TakesFrom 1 (start s limit) consume := .consume ready (by simp [start])
  have first : LastsFrom ⟨rounds, limit⟩ 1 (start s limit) (do let _ ← consume; p)
      (do let _ ← consume; q) := by
    refine (LastsFrom.lift opening).bind fun t c ran reaches => ?_
    have taken : c.pending.length + 1 ≤ s.tokens.tokens.length + 1 := (opening ran).2
    have few : c.pending.length ≤ rounds := by omega
    exact h.less (reaches.ready ready) few
  unfold Rationed.run Parser.run
  rw [first.same]
  cases (do let _ ← consume; q : Parser α) (start s limit) <;> rfl

theorem Source.rations_last (s : Source) (enough : limit < calls)
    (fits : s.tokens.tokens.length ≤ rounds) : s.RationsLast calls rounds limit where
  document := (Rationed.Lasts.document enough).run fits
  value := (Rationed.Lasts.value _ enough).alone.run fits
  constValue := (Rationed.Lasts.value _ enough).alone.run fits
  typeRef := (Rationed.Lasts.typeRef enough).alone.run fits

/-- A source has no more tokens than characters, but for the end of the input. -/
theorem Scanner.tokens_few (s : Scanner) : s.tokens.tokens.length ≤ s.rest.length + 1 := by
  fun_induction Scanner.tokens s with
  | case1 s e s' h => simp
  | case2 s t s' h last => simp
  | case3 s t s' h more later ih =>
    rcases s.length_next with ⟨p, last⟩ | shorter
    · rw [h] at last
      cases last
      exact absurd rfl more
    · have shorter : s'.rest.length < s.rest.length := by rwa [h] at shorter
      exact Nat.succ_le_succ (ih.trans shorter)

/-- Parsing ends. An item that is read from any place in the tokens of a source goes on to a token that
starts further on, and at the end of the input none is read. So loops over items, which only their own
conditions end, have no more rounds than there are tokens left. All the loops for a whole text have no more
than it has tokens, and these are no more than its characters and the end of the input. The calls in
one another are one more than the limit of nesting at most. -/
theorem parsing_ends (s : Source) (enough : limit < calls) :
    (∀ {α : Type} {p : Rationed α} {q : Parser α}, Rationed.Item calls limit p q →
      ∀ c : Cursor, c.On s →
        (∀ a c', q c = .ok (a, c') → c'.On s ∧ c.current.start.offset < c'.current.start.offset) ∧
        (c.current.kind = .endOfInput → ∀ r, q c ≠ .ok r) ∧
        ∀ rounds, c.pending.length ≤ rounds → Rationed.LoopsLast ⟨rounds, limit⟩ c p q) ∧
    (∀ rounds, s.tokens.tokens.length ≤ rounds → s.RationsLast calls rounds limit) ∧
    s.tokens.tokens.length ≤ s.chars.length + 1 := by
  refine ⟨fun item c on => ⟨fun a c' ran => item.goes_on enough on ran, item.fails_at_end enough on,
    fun rounds fits => (item.lasts enough).loops on.ready fits⟩,
    fun rounds fits => s.rations_last enough fits, (Scanner.start s).tokens_few⟩

/-- A selection set has four tokens with the end of the input, and that is where it goes on to. -/
theorem parsing_ends_selection :
    let s : Source := ⟨"\x7ba\x7d", "query"⟩
    64 < 65 ∧ s.RationsLast 65 4 64 ∧ s.tokens.tokens.length ≤ s.chars.length + 1 ∧
      Rationed.Item 65 64 (definition 65) (definition 64) ∧
      ∃ c d c', c.On s ∧ definition (m := Parser) 64 c = .ok (d, c') ∧ c'.On s ∧
        c.current.start.offset < c'.current.start.offset ∧ c'.current.kind = .endOfInput ∧
        (∀ r, definition (m := Parser) 64 c' ≠ .ok r) ∧
        Rationed.LoopsLast ⟨4, 64⟩ c (definition 65) (definition 64) := by
  intro s
  have tokens : s.tokens.tokens.length = 4 := by cbv
  obtain ⟨d, ran⟩ : ∃ d, run (alone (definition 64)) s 64 = .ok d := ⟨_, by cbv⟩
  obtain ⟨c, c', opens, ran⟩ := run_ok ran
  obtain ⟨ran, at_end⟩ := alone_ok ran
  have on : c.On s := ⟨opens.source, opens.pending ▸ List.suffix_cons _ _, opens.failure⟩
  obtain ⟨items, rations, few⟩ := parsing_ends s (by decide : 64 < 65)
  obtain ⟨goes_on, -, loops⟩ := items .definition c on
  obtain ⟨on', further⟩ := goes_on d c' ran
  have loops := loops 4 (by rw [opens.pending, tokens])
  exact ⟨by decide, rations 4 tokens.le, few, .definition, c, d, c', on, ran, on', further, at_end,
    (items .definition c' on').2.1 at_end, loops⟩

end GraphQL
