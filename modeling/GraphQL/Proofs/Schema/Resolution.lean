import GraphQL.Proofs.Transformer.Nodes
import GraphQL.Proofs.TypeNotation
import GraphQL.Schema

/-! Resolution of types. A reference to a type resolves if its name is known, to the lists and
non-null marks that it has, around what the name stands for. Resolved types are compared by what
they display. -/
namespace GraphQL

/-! ### Lists and marks -/

/-- What stands around a type in another one. -/
inductive TypeLayer where
  | list
  | nonNull
  deriving DecidableEq

mutual

/-- The layers around the name of a type, the outermost first. -/
def NullableType.layers : NullableType → List TypeLayer
  | .named _ => []
  | .list _ e => .list :: e.layers

/-- The layers around the name of a type, the outermost first. -/
def TypeRef.layers : TypeRef → List TypeLayer
  | .nullable t => t.layers
  | .nonNull _ t => .nonNull :: t.layers

end

namespace ResolvedType

/-- The layers around the named type, the outermost first. -/
def layers : ResolvedType → List TypeLayer
  | named _ => []
  | list t => .list :: t.layers
  | nonNull t => .nonNull :: t.layers

/-- No non-null mark stands directly on another one. -/
def MarkedOnce : ResolvedType → Prop
  | named _ => True
  | list t => t.MarkedOnce
  | nonNull t => t.isNonNull = false ∧ t.MarkedOnce

end ResolvedType

/-! ### What a reference resolves to -/

mutual

/-- The type with a known one in the place of its name. -/
def NullableType.around (k : KnownType) : NullableType → ResolvedType
  | .named _ => .named k
  | .list _ e => .list (e.around k)

/-- The type with a known one in the place of its name. -/
def TypeRef.around (k : KnownType) : TypeRef → ResolvedType
  | .nullable t => t.around k
  | .nonNull _ t => .nonNull (t.around k)

end

section

variable {k : KnownType}

mutual

/-- Nothing but the name decides whether a type resolves. -/
theorem NullableType.resolve?_eq (type? : String → Option KnownType) (t : NullableType) :
    t.resolve? type? = (type? t.core.name.value).map t.around := by
  match t with
  | .named t => rfl
  | .list o e =>
    rw [NullableType.resolve?, e.resolve?_eq, Option.map_map]
    rfl

theorem TypeRef.resolve?_eq (type? : String → Option KnownType) (t : TypeRef) :
    t.resolve? type? = (type? t.core.name.value).map t.around := by
  match t with
  | .nullable t => exact t.resolve?_eq type?
  | .nonNull o t =>
    rw [TypeRef.resolve?, t.resolve?_eq, Option.map_map]
    rfl

end

mutual

theorem NullableType.core_around (t : NullableType) : (t.around k).core = k := by
  match t with
  | .named t => rfl
  | .list o e => exact e.core_around

theorem TypeRef.core_around (t : TypeRef) : (t.around k).core = k := by
  match t with
  | .nullable t => exact t.core_around
  | .nonNull o t => exact t.core_around

end

mutual

theorem NullableType.layers_around (t : NullableType) : (t.around k).layers = t.layers := by
  match t with
  | .named t => rfl
  | .list o e => exact congrArg (TypeLayer.list :: ·) e.layers_around

theorem TypeRef.layers_around (t : TypeRef) : (t.around k).layers = t.layers := by
  match t with
  | .nullable t => exact t.layers_around
  | .nonNull o t => exact congrArg (TypeLayer.nonNull :: ·) t.layers_around

end

theorem NullableType.isNonNull_around (t : NullableType) : (t.around k).isNonNull = false := by
  cases t <;> rfl

theorem TypeRef.isNonNull_around (t : TypeRef) : (t.around k).isNonNull = t.isNonNull := by
  cases t with
  | nullable t => exact t.isNonNull_around
  | nonNull o t => rfl

mutual

theorem NullableType.markedOnce_around (t : NullableType) : (t.around k).MarkedOnce := by
  match t with
  | .named t => trivial
  | .list o e => exact e.markedOnce_around

theorem TypeRef.markedOnce_around (t : TypeRef) : (t.around k).MarkedOnce := by
  match t with
  | .nullable t => exact t.markedOnce_around
  | .nonNull o t => exact ⟨t.isNonNull_around, t.markedOnce_around⟩

end

mutual

theorem NullableType.display_around (t : NullableType) (same : k.name = t.core.name.value) :
    (t.around k).display = t.display := by
  match t with
  | .named t => exact same
  | .list o e => exact congrArg (fun inner => "[" ++ inner ++ "]") (e.display_around same)

theorem TypeRef.display_around (t : TypeRef) (same : k.name = t.core.name.value) :
    (t.around k).display = t.display := by
  match t with
  | .nullable t => exact t.display_around same
  | .nonNull o t => exact congrArg (· ++ "!") (t.display_around same)

end

/-- A schema knows a type under the name that the type has. -/
theorem DocumentSchema.name_of_type? {s : DocumentSchema} {word : String}
    (known : s.type? word = some k) : k.name = word := by
  unfold DocumentSchema.type? at known
  split at known
  · next e found =>
    cases known
    exact beq_iff_eq.mp (List.find?_some (p := fun e : TypeEntry => e.name == word) found)
  · obtain ⟨scalar, found, rfl⟩ := Option.map_eq_some_iff.mp known
    exact beq_iff_eq.mp (List.find?_some (p := fun b : BuiltInScalar => b.name == word) found)

end

/-! ### What tells resolved types apart -/

theorem IsName.continues {word : String} (h : IsName word) :
    ∀ c ∈ word.toList, Text.isNameContinue c = true := by
  obtain ⟨c, cs, chars, start, later⟩ := h
  rw [chars, List.forall_mem_cons]
  exact ⟨by simp [Text.isNameContinue, start], later⟩

namespace ResolvedType

/-- The outermost layer that a text shows at its end. -/
def layerOf (text : String) : Option TypeLayer :=
  match text.toList.getLast? with
  | some ']' => some .list
  | some '!' => some .nonNull
  | _ => none

/-- A name has no brackets and no marks in it, so the end of what a type displays shows its outermost
layer. -/
theorem layerOf_display {r : ResolvedType} (word : IsName r.core.name) :
    layerOf r.display = r.layers.head? := by
  cases r with
  | named k =>
    have continues : ∀ c ∈ k.name.toList.getLast?, Text.isNameContinue c = true :=
      fun c last => word.continues c (List.mem_of_getLast? last)
    simp only [layerOf, display, layers]
    split
    · next last => cases continues _ last
    · next last => cases continues _ last
    · rfl
  | list t =>
    have chars : (list t).display.toList = ('[' :: t.display.toList) ++ [']'] := by simp [display]
    rw [layerOf, chars, List.getLast?_concat]
    rfl
  | nonNull t =>
    have chars : (nonNull t).display.toList = t.display.toList ++ ['!'] := by simp [display]
    rw [layerOf, chars, List.getLast?_concat]
    rfl

/-- Types that display the same have the same outermost layer. -/
theorem outermost_eq {r q : ResolvedType} (word : IsName r.core.name) (word' : IsName q.core.name)
    (same : r.display = q.display) : r.layers.head? = q.layers.head? := by
  rw [← layerOf_display word, same, layerOf_display word']

/-- Resolved types are the same if they display the same. -/
theorem beq_iff_display {r q : ResolvedType} (word : IsName r.core.name)
    (word' : IsName q.core.name) : (r == q) = true ↔ r.display = q.display := by
  induction r generalizing q with
  | named a =>
    cases q with
    | named b => exact beq_iff_eq (α := String)
    | list _ | nonNull _ =>
      exact iff_of_false Bool.false_ne_true fun same => nomatch outermost_eq word word' same
  | list r ih =>
    cases q with
    | list q =>
      have displayed : (list r).display = (list q).display ↔ r.display = q.display := by
        simp [display, String.ext_iff]
      exact (ih (q := q) word word').trans displayed.symm
    | named _ | nonNull _ =>
      exact iff_of_false Bool.false_ne_true fun same => nomatch outermost_eq word word' same
  | nonNull r ih =>
    cases q with
    | nonNull q =>
      have displayed : (nonNull r).display = (nonNull q).display ↔ r.display = q.display := by
        simp [display, String.ext_iff]
      exact (ih (q := q) word word').trans displayed.symm
    | named _ | list _ =>
      exact iff_of_false Bool.false_ne_true fun same => nomatch outermost_eq word word' same

end ResolvedType

/-! ### References that were read -/

/-- A reference as it stands in what was read: in a type alone or in a document, at any depth. -/
def TypeRef.IsParsed (t : TypeRef) : Prop :=
  ∃ s : Source,
    (∃ u, s.parseTypeRef = .ok u ∧ Node.type t ∈ u.tree.preorder) ∨
      ∃ d, s.parseDocument = .ok d ∧ Node.type t ∈ d.tree.preorder

mutual

/-- The name of a type is one of its nodes. -/
theorem NullableType.core_mem_preorder (t : NullableType) :
    Node.name t.core.name ∈ t.tree.preorder := by
  match t with
  | .named t => simp [NullableType.tree, NamedType.tree, Name.tree, Tree.leaf, Tree.preorder,
      Tree.preorderOf, NullableType.core]
  | .list o e =>
    have inside : Node.name e.core.name ∈ e.tree.preorder := e.core_mem_preorder
    simp [NullableType.tree, Tree.preorder, Tree.preorderOf, NullableType.core, inside]

theorem TypeRef.core_mem_preorder (t : TypeRef) : Node.name t.core.name ∈ t.tree.preorder := by
  match t with
  | .nullable t =>
    rw [TypeRef.tree]
    exact t.core_mem_preorder
  | .nonNull o t =>
    have inside : Node.name t.core.name ∈ t.tree.preorder := t.core_mem_preorder
    simp [TypeRef.tree, Tree.preorder, Tree.preorderOf, TypeRef.core, inside]

end

/-- What was read refers to types by names. -/
theorem TypeRef.IsParsed.isName {t : TypeRef} (h : t.IsParsed) : IsName t.core.name.value := by
  have lawful : ∀ n : Node, (∀ m ∈ n.tree.preorder, m.IsLawful) → Node.type t ∈ n.tree.preorder →
      IsName t.core.name.value := fun n rules inside =>
    rules _ (Node.preorder_subset inside t.core_mem_preorder)
  obtain ⟨s, ⟨u, read, inside⟩ | ⟨d, read, inside⟩⟩ := h
  · obtain ⟨ts, -, reading⟩ : ∃ ts, s.Words ts ∧
        Reading s false nestingLimit u.spelling [u.tree] ts :=
      alone_reading (Parser.typeRef_reads nestingLimit) read
    exact lawful (.type u) (Tree.legal_iff.mp (reading.legal u.tree List.mem_cons_self)).1 inside
  · exact lawful (.document d) (parsed_document_wellFormed read).lawful inside

/-- Resolution is faithful. A type resolves just if its name is known. What it resolves to displays
as it does, has its lists and non-null marks in their order, no two marks on each other, and what is
known under its name inside. Of references that were read and resolve, those stand for the same type
that display the same. -/
theorem resolution_faithful (s : DocumentSchema) :
    (∀ t : TypeRef,
      ((s.toSchema.resolve? t).isSome ↔ (s.type? t.core.name.value).isSome) ∧
      ∀ r, s.toSchema.resolve? t = some r →
        r.display = t.display ∧ s.type? t.core.name.value = some r.core ∧
          r.isNonNull = t.isNonNull ∧ r.layers = t.layers ∧ r.MarkedOnce) ∧
    ∀ t u : TypeRef, t.IsParsed → u.IsParsed →
      ∀ r q, s.toSchema.resolve? t = some r → s.toSchema.resolve? u = some q →
        ((r == q) = true ↔ t.display = u.display) := by
  have resolve : ∀ t : TypeRef,
      s.toSchema.resolve? t = (s.type? t.core.name.value).map t.around := fun t =>
    t.resolve?_eq s.type?
  refine ⟨fun t => ⟨by rw [resolve, Option.isSome_map], fun r resolved => ?_⟩, ?_⟩
  · rw [resolve] at resolved
    obtain ⟨k, known, rfl⟩ := Option.map_eq_some_iff.mp resolved
    exact ⟨t.display_around (DocumentSchema.name_of_type? known), by rw [known, t.core_around],
      t.isNonNull_around, t.layers_around, t.markedOnce_around⟩
  · intro t u parsed parsed' r q resolved resolved'
    rw [resolve] at resolved resolved'
    obtain ⟨k, known, rfl⟩ := Option.map_eq_some_iff.mp resolved
    obtain ⟨j, known', rfl⟩ := Option.map_eq_some_iff.mp resolved'
    have name : k.name = t.core.name.value := DocumentSchema.name_of_type? known
    have name' : j.name = u.core.name.value := DocumentSchema.name_of_type? known'
    have word : IsName (t.around k).core.name := by
      rw [t.core_around, name]
      exact parsed.isName
    have word' : IsName (u.around j).core.name := by
      rw [u.core_around, name']
      exact parsed'.isName
    rw [ResolvedType.beq_iff_display word word', t.display_around name, u.display_around name']

/-- A type under two marks and a list: read alone, and in a field of a type that hides a scalar. -/
theorem resolution_faithful_hidden :
    ∃ d t u, (⟨"type Int \x7b f: [ Int! ]! \x7d", "d"⟩ : Source).parseDocument = .ok d ∧
      (⟨"[Int!]!", "t"⟩ : Source).parseTypeRef = .ok t ∧ t.IsParsed ∧
      Node.type u ∈ d.tree.preorder ∧ u.IsParsed ∧
      ∃ r q, (DocumentSchema.ofDocument d).toSchema.resolve? t = some r ∧
        (DocumentSchema.ofDocument d).toSchema.resolve? u = some q ∧
        r.layers = [.nonNull, .list, .nonNull] ∧ (r == q) = true := by
  obtain ⟨d, read, u, place, display, name, known⟩ : ∃ d,
      (⟨"type Int \x7b f: [ Int! ]! \x7d", "d"⟩ : Source).parseDocument = .ok d ∧
      ∃ u, d.tree.preorder[5]? = some (.type u) ∧ u.display = "[Int!]!" ∧
        u.core.name.value = "Int" ∧ ((DocumentSchema.ofDocument d).type? "Int").isSome :=
    ⟨_, by cbv, _, by cbv, by cbv, by cbv, by cbv⟩
  obtain ⟨t, read', display', name', layers⟩ : ∃ t,
      (⟨"[Int!]!", "t"⟩ : Source).parseTypeRef = .ok t ∧ t.display = "[Int!]!" ∧
        t.core.name.value = "Int" ∧ t.layers = [.nonNull, .list, .nonNull] :=
    ⟨_, by cbv, by cbv, by cbv, by cbv⟩
  have inside : Node.type u ∈ d.tree.preorder := List.mem_of_getElem? place
  have parsed : u.IsParsed := ⟨_, .inr ⟨d, read, inside⟩⟩
  have itself : Node.type t ∈ (Node.type t).tree.preorder := by
    rw [Node.preorder_tree]
    exact List.mem_cons_self
  have parsed' : t.IsParsed := ⟨_, .inl ⟨t, read', itself⟩⟩
  obtain ⟨faithful, compares⟩ := resolution_faithful (.ofDocument d)
  obtain ⟨r, resolved⟩ := Option.isSome_iff_exists.mp ((faithful t).1.mpr (name'.symm ▸ known))
  obtain ⟨q, resolved'⟩ := Option.isSome_iff_exists.mp ((faithful u).1.mpr (name.symm ▸ known))
  obtain ⟨-, -, -, same_layers, -⟩ := (faithful t).2 r resolved
  exact ⟨d, t, u, read, read', parsed', inside, parsed, r, q, resolved, resolved',
    same_layers.trans layers,
    (compares t u parsed' parsed r q resolved resolved').mpr (display'.trans display.symm)⟩

end GraphQL
