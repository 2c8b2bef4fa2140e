import GraphQL.Proofs.Reparsing

/-! The notation of types: a name or a list in brackets, with a non-null mark or without. What a
type displays is read as that type again, and the texts that are read are those whose tokens are in
the notation. -/
namespace GraphQL

mutual

/-- How many lists a type has in each other. -/
def NullableType.lists : NullableType → Nat
  | .named _ => 0
  | .list _ e => e.lists + 1

def TypeRef.lists : TypeRef → Nat
  | .nullable t | .nonNull _ t => t.lists

end

/-- A non-null mark, or none. -/
def bangs (marked : Bool) : List TokenKind := if marked then [.punctuator .bang] else []

/-- The tokens of a type with at most so many lists in each other. -/
inductive InTypeNotation : Nat → List TokenKind → Prop
  | name (levels : Nat) (text : String) (marked : Bool) :
      InTypeNotation levels (.name text :: bangs marked)
  | list {levels : Nat} {ks : List TokenKind} (element : InTypeNotation levels ks)
      (marked : Bool) :
      InTypeNotation (levels + 1)
        ([.punctuator .openBracket] ++ ks ++ [.punctuator .closeBracket] ++ bangs marked)

variable {const : Bool} {levels : Nat} {ks ks' : List TokenKind} {rest : List Char}

/-! ### Types by their notation -/

theorem NamedType.legal_tree_iff {t : NamedType} :
    t.tree.Legal const levels ↔ IsName t.name.value := by
  simp [NamedType.tree, Name.tree, Tree.leaf, Tree.Legal, Tree.LegalRow, Node.IsLawful, Node.nests,
    Node.kind]

mutual

/-- A type is legal if its name is one and its lists are within the limit. -/
theorem NullableType.legal_tree_iff (t : NullableType) (levels : Nat) :
    t.tree.Legal const levels ↔ IsName t.core.name.value ∧ t.lists ≤ levels := by
  match t with
  | .named t =>
    simpa [NullableType.tree, NullableType.core, NullableType.lists] using
      NamedType.legal_tree_iff
  | .list o e =>
    have nests : (Node.type (.nullable (.list o e))).nests.toNat = 1 := rfl
    have step : (NullableType.list o e).tree.Legal const levels ↔
        ∃ below, levels = below + 1 ∧ e.tree.Legal const below := by
      simp [NullableType.tree, Tree.Legal, Tree.LegalRow, Node.IsLawful, nests, Node.kind]
    simp only [step, e.legal_tree_iff, NullableType.core, NullableType.lists]
    constructor
    · rintro ⟨below, rfl, word, fits⟩
      exact ⟨word, Nat.succ_le_succ fits⟩
    · rintro ⟨word, fits⟩
      obtain ⟨below, rfl⟩ := Nat.exists_eq_add_of_le' (Nat.le_of_add_left_le fits)
      exact ⟨below, rfl, word, Nat.le_of_succ_le_succ fits⟩

theorem TypeRef.legal_tree_iff (t : TypeRef) (levels : Nat) :
    t.tree.Legal const levels ↔ IsName t.core.name.value ∧ t.lists ≤ levels := by
  match t with
  | .nullable t => exact t.legal_tree_iff levels
  | .nonNull o t =>
    have nests : (Node.type (.nonNull o t)).nests.toNat = 0 := rfl
    have step : (TypeRef.nonNull o t).tree.Legal const levels ↔ t.tree.Legal const levels := by
      simp [TypeRef.tree, Tree.Legal, Tree.LegalRow, Node.IsLawful, nests, Node.kind]
    rw [step, t.legal_tree_iff levels, TypeRef.core, TypeRef.lists]

end

/-- A type with a non-null mark, or without. -/
def NullableType.marked (t : NullableType) (mark : Bool) : TypeRef :=
  if mark then .nonNull none t else .nullable t

theorem NullableType.tree_marked_legal {t : NullableType} (legal : t.tree.Legal const levels)
    (mark : Bool) : (t.marked mark).tree.Legal const levels := by
  cases mark with
  | false => exact legal
  | true =>
    rw [NullableType.legal_tree_iff] at legal
    exact (TypeRef.legal_tree_iff ..).mpr legal

theorem NullableType.spelling_marked {t : NullableType} (spelled : ks ∈ t.spelling) (mark : Bool) :
    ks ++ bangs mark ∈ (t.marked mark).spelling := by
  cases mark with
  | false => simpa [bangs, marked, TypeRef.spelling] using spelled
  | true => exact Language.append_mem_mul spelled (Spelling.mem_word.mpr rfl)

theorem NullableType.mem_spelling_list {o : Option Origin} {e : TypeRef} :
    ks ∈ (NullableType.list o e).spelling ↔
      ∃ inner ∈ e.spelling, ks = [.punctuator .openBracket] ++ inner ++ [.punctuator .closeBracket] := by
  rw [NullableType.spelling, Spelling.mem_mul_word]
  simp only [Spelling.mem_word_mul]
  grind

mutual

theorem NullableType.exists_spelled (t : NullableType) : ∃ ks, ks ∈ t.spelling := by
  match t with
  | .named t => exact ⟨[.name t.name.value], Spelling.mem_word.mpr rfl⟩
  | .list o e =>
    obtain ⟨inner, element⟩ := e.exists_spelled
    exact ⟨_, NullableType.mem_spelling_list.mpr ⟨inner, element, rfl⟩⟩

theorem TypeRef.exists_spelled (t : TypeRef) : ∃ ks, ks ∈ t.spelling := by
  match t with
  | .nullable t => exact t.exists_spelled
  | .nonNull o t =>
    obtain ⟨bare, inside⟩ := t.exists_spelled
    exact ⟨_, Spelling.mem_mul_word.mpr ⟨bare, inside, rfl⟩⟩

end

mutual

/-- What spells a type is in the notation of types. -/
theorem NullableType.inTypeNotation (t : NullableType) {levels : Nat} {ks : List TokenKind}
    (spelled : ks ∈ t.spelling) (fits : t.lists ≤ levels) (marked : Bool) :
    InTypeNotation levels (ks ++ bangs marked) := by
  match t with
  | .named t =>
    obtain rfl : ks = [.name t.name.value] := Spelling.mem_word.mp spelled
    exact .name levels t.name.value marked
  | .list o e =>
    obtain ⟨inner, element, rfl⟩ := NullableType.mem_spelling_list.mp spelled
    obtain ⟨below, rfl⟩ := Nat.exists_eq_add_of_le' (Nat.le_of_add_left_le fits)
    exact .list (e.inTypeNotation element (Nat.le_of_succ_le_succ fits)) marked

theorem TypeRef.inTypeNotation (t : TypeRef) {levels : Nat} {ks : List TokenKind}
    (spelled : ks ∈ t.spelling) (fits : t.lists ≤ levels) : InTypeNotation levels ks := by
  match t with
  | .nullable t => simpa [bangs] using t.inTypeNotation spelled fits false
  | .nonNull o t =>
    obtain ⟨bare, inside, rfl⟩ := Spelling.mem_mul_word.mp spelled
    exact t.inTypeNotation inside fits true

end

/-- What is in the notation of types spells one. -/
theorem InTypeNotation.exists_legal (h : InTypeNotation levels ks)
    (names : ∀ text, .name text ∈ ks → IsName text) :
    ∃ t : TypeRef, ks ∈ t.spelling ∧ t.tree.Legal const levels := by
  induction h with
  | name levels text mark =>
    let t : NullableType := .named ⟨none, ⟨none, text⟩⟩
    have spelled : [.name text] ∈ t.spelling := Spelling.mem_word.mpr rfl
    have legal : t.tree.Legal const levels :=
      NamedType.legal_tree_iff.mpr (names text List.mem_cons_self)
    exact ⟨t.marked mark, NullableType.spelling_marked spelled mark,
      NullableType.tree_marked_legal legal mark⟩
  | list element mark ih =>
    obtain ⟨e, spelled, legal⟩ := ih fun text inside => names text (by simp [inside])
    let t : NullableType := .list none e
    obtain ⟨word, fits⟩ := (e.legal_tree_iff _).mp legal
    have legal : t.tree.Legal const _ := (t.legal_tree_iff _).mpr ⟨word, Nat.succ_le_succ fits⟩
    have spelled := NullableType.mem_spelling_list (o := none).mpr ⟨_, spelled, rfl⟩
    exact ⟨t.marked mark, NullableType.spelling_marked spelled mark,
      NullableType.tree_marked_legal legal mark⟩

/-! ### What a type displays -/

mutual

/-- A type displays its tokens as they are written, with nothing between them. -/
theorem NullableType.display_spelled (t : NullableType) {ks : List TokenKind}
    (spelled : ks ∈ t.spelling) : t.display = String.join (ks.map (·.written)) := by
  match t with
  | .named t =>
    obtain rfl : ks = [.name t.name.value] := Spelling.mem_word.mp spelled
    simp [NullableType.display, TokenKind.written]
  | .list o e =>
    obtain ⟨inner, element, rfl⟩ := NullableType.mem_spelling_list.mp spelled
    have opening : (TokenKind.punctuator .openBracket).written = "[" := rfl
    have closing : (TokenKind.punctuator .closeBracket).written = "]" := rfl
    rw [NullableType.display, e.display_spelled element]
    simp [opening, closing, String.append_assoc]

theorem TypeRef.display_spelled (t : TypeRef) {ks : List TokenKind} (spelled : ks ∈ t.spelling) :
    t.display = String.join (ks.map (·.written)) := by
  match t with
  | .nullable t => exact t.display_spelled spelled
  | .nonNull o t =>
    obtain ⟨bare, inside, rfl⟩ := Spelling.mem_mul_word.mp spelled
    have mark : (TokenKind.punctuator .bang).written = "!" := rfl
    rw [TypeRef.display, t.display_spelled inside]
    simp [mark]

end

/-! ### Reading what a type displays -/

/-- A mark is read in front of anything. -/
theorem ReadsAs.mark (m : Punctuator) (later : ReadsAs rest ks) :
    ReadsAs (m.text.toList ++ rest) (.punctuator m :: ks) :=
  .token .nil (Lexeme.read_isLexeme (.punctuator m rest)) later

/-- A name is read in front of what does not go on with it. -/
theorem ReadsAs.name {text : String} (word : IsName text)
    (stops : ∀ c ∈ rest.head?, Text.isNameContinue c = false) (later : ReadsAs rest ks) :
    ReadsAs (text.toList ++ rest) (.name text :: ks) :=
  have reads : (TokenKind.name text).ReadBefore rest :=
    Lexeme.read_name (Lexeme.longest_name_iff.mpr ⟨word, stops⟩)
  .token .nil reads later

/-- No name goes on with a mark. -/
theorem Punctuator.stops_name (m : Punctuator) (rest : List Char) :
    ∀ c ∈ (m.text.toList ++ rest).head?, Text.isNameContinue c = false := by
  intro c first
  cases m <;> cases first <;> rfl

mutual

/-- What a type displays is read as its tokens, in front of what goes on with no name. -/
theorem NullableType.readsAs_display (t : NullableType) {ks ks' : List TokenKind}
    {rest : List Char} (spelled : ks ∈ t.spelling) (word : IsName t.core.name.value)
    (stops : ∀ c ∈ rest.head?, Text.isNameContinue c = false) (later : ReadsAs rest ks') :
    ReadsAs (t.display.toList ++ rest) (ks ++ ks') := by
  match t with
  | .named t =>
    obtain rfl : ks = [.name t.name.value] := Spelling.mem_word.mp spelled
    exact .name word stops later
  | .list o e =>
    obtain ⟨inner, element, rfl⟩ := NullableType.mem_spelling_list.mp spelled
    have closed := later.mark .closeBracket
    have whole := (e.readsAs_display element word (Punctuator.stops_name _ _) closed).mark .openBracket
    simpa [NullableType.display, Punctuator.text] using whole

theorem TypeRef.readsAs_display (t : TypeRef) {ks ks' : List TokenKind} {rest : List Char}
    (spelled : ks ∈ t.spelling) (word : IsName t.core.name.value)
    (stops : ∀ c ∈ rest.head?, Text.isNameContinue c = false) (later : ReadsAs rest ks') :
    ReadsAs (t.display.toList ++ rest) (ks ++ ks') := by
  match t with
  | .nullable t => exact t.readsAs_display spelled word stops later
  | .nonNull o t =>
    obtain ⟨bare, inside, rfl⟩ := Spelling.mem_mul_word.mp spelled
    have whole := t.readsAs_display inside word (Punctuator.stops_name _ _) (later.mark .bang)
    simpa [TypeRef.display, Punctuator.text] using whole

end

/-! ### Types as sources -/

/-- The text of a word of a source is the word as it is written. -/
theorem Source.Words.text_origin {s : Source} {ts : List Token} (words : s.Words ts) {t : Token}
    (inside : t ∈ ts) : (t.origin s).text = t.kind.written := by
  obtain ⟨e, tiled⟩ := words.tiled
  obtain ⟨before, after, rfl⟩ := List.append_of_mem inside
  have tiled : Tiled .first s.chars (before ++ [t] ++ (after ++ [e])) := by simpa using tiled
  exact String.toList_inj.mp (tiled.text_covering rfl).single

/-- What is read alone spells all words of its source. -/
theorem alone_reading {α : Type} {p : Parser α} {limit : Nat} {spelling : α → Spelling}
    {tree : α → Tree Node} {s : Source} {a : α}
    (reads : Parser.Reads const levels p spelling fun a => [tree a])
    (h : Parser.run (Parser.alone p) s limit = .ok a) :
    ∃ ts, s.Words ts ∧ Reading s const levels (spelling a) [tree a] ts := by
  obtain ⟨c, c', opens, ran⟩ := Parser.run_ok h
  obtain ⟨ran, at_end⟩ := Parser.alone_ok ran
  obtain ⟨ts, steps, reading⟩ := reads opens.ready ran
  rw [opens.source] at reading
  exact ⟨ts, opens.words steps at_end, reading⟩

/-- The words of a source are all that it is read as. -/
theorem Source.Words.readsAs {s : Source} {ts : List Token} (words : s.Words ts) :
    ReadsAs s.chars (kinds ts ++ [.endOfInput]) := by
  obtain ⟨e, last, all⟩ := words.ended
  have complete : (Scanner.start s).tokens.failure = none := by rw [← Source.tokens, all]
  have reads := ReadsAs.of_tokens (.start s) complete
  rw [← Source.tokens, all] at reads
  simpa [kinds, last, Scanner.start] using reads

theorem parseTypeRef_ok {s : Source} {t : TypeRef} (h : s.parseTypeRef = .ok t) :
    ∃ ts, s.Words ts ∧ kinds ts ∈ t.spelling ∧ t.lists ≤ nestingLimit := by
  obtain ⟨ts, words, reading⟩ : ∃ ts, s.Words ts ∧
      Reading s false nestingLimit t.spelling [t.tree] ts :=
    alone_reading (Parser.typeRef_reads nestingLimit) h
  have legal := reading.legal t.tree List.mem_cons_self
  exact ⟨ts, words, reading.spelled, ((t.legal_tree_iff _).mp legal).2⟩

/-- Types are displayed and read inversely. A type that has a name for its name, and no more lists in
each other than may nest, is read from what it displays, up to origins. What is read from a text
displays the tokens of the text and nothing else. Those texts are read whose tokens are in the
notation of types. -/
theorem parseTypeRef_inverts_display :
    (∀ (t : TypeRef) (name : String), IsName t.core.name.value → t.lists ≤ nestingLimit →
      ∃ u, (⟨t.display, name⟩ : Source).parseTypeRef = .ok u ∧
        Comparable.same false u t = true) ∧
    (∀ (s : Source) (t : TypeRef), s.parseTypeRef = .ok t →
      ∃ ts, s.Words ts ∧ t.display = String.join (ts.map fun token => (token.origin s).text)) ∧
    ∀ s : Source, (∃ t, s.parseTypeRef = .ok t) ↔
      ∃ ts, s.Words ts ∧ InTypeNotation nestingLimit (kinds ts) := by
  refine ⟨fun t name word fits => ?_, fun s t h => ?_, fun s => ⟨?_, ?_⟩⟩
  · have legal : t.tree.Legal false nestingLimit := (t.legal_tree_iff _).mpr ⟨word, fits⟩
    obtain ⟨ks, spelled⟩ : ∃ ks, ks ∈ t.spelling := t.exists_spelled
    have none_left : ∀ c ∈ ([] : List Char).head?, Text.isNameContinue c = false := by simp
    have reads := t.readsAs_display spelled word none_left (.ending rfl)
    rw [List.append_nil] at reads
    exact run_alone (Parser.typeRef_restores legal) (by simp) spelled reads
  · obtain ⟨ts, words, spelled, -⟩ := parseTypeRef_ok h
    refine ⟨ts, words, ?_⟩
    rw [t.display_spelled spelled, kinds, List.map_map]
    congr 1
    exact List.map_congr_left fun token inside => (words.text_origin inside).symm
  · rintro ⟨t, h⟩
    obtain ⟨ts, words, spelled, fits⟩ := parseTypeRef_ok h
    exact ⟨ts, words, t.inTypeNotation spelled fits⟩
  · rintro ⟨ts, words, inNotation⟩
    have names : ∀ text, .name text ∈ kinds ts → IsName text := by
      intro text inside
      obtain ⟨token, mem, kind⟩ := List.mem_map.mp inside
      exact (words.words token mem).name text kind
    obtain ⟨t, spelled, legal⟩ : ∃ t : TypeRef, kinds ts ∈ t.spelling ∧
        t.tree.Legal false nestingLimit := inNotation.exists_legal names
    obtain ⟨u, h, -⟩ :=
      run_alone (Parser.typeRef_restores legal) (by simp) spelled words.readsAs
    exact ⟨u, h⟩

/-- A list of lists is given back, and a text with spaces and a comment displays without them. -/
theorem parseTypeRef_inverts_display_spaced :
    let t : TypeRef := .nonNull none (.list none (.nullable (.list none
      (.nonNull none (.named ⟨none, ⟨none, "A"⟩⟩)))))
    let s : Source := ⟨"[ A !\n] # B", "f"⟩
    IsName t.core.name.value ∧ t.lists ≤ nestingLimit ∧
      (∃ u, (⟨t.display, "f"⟩ : Source).parseTypeRef = .ok u ∧
        Comparable.same false u t = true) ∧
      ∃ u, s.parseTypeRef = .ok u ∧ u.display = "[A!]" ∧
        (∃ ts, s.Words ts ∧ u.display = String.join (ts.map fun token => (token.origin s).text)) ∧
        ∃ ts, s.Words ts ∧ InTypeNotation nestingLimit (kinds ts) := by
  intro t s
  obtain ⟨displayed, joined, accepted⟩ := parseTypeRef_inverts_display
  have word : IsName t.core.name.value := by decide
  have fits : t.lists ≤ nestingLimit := by decide
  obtain ⟨u, h, display⟩ : ∃ u, s.parseTypeRef = .ok u ∧ u.display = "[A!]" :=
    ⟨_, by cbv, rfl⟩
  exact ⟨word, fits, displayed t "f" word fits, u, h, display, joined s u h,
    (accepted s).mp ⟨u, h⟩⟩

end GraphQL
