import GraphQL.Walk.Context
import Mathlib.Data.List.Basic

/-! Contexts in a walk: the context of a node is what the nodes on the way down to it make of the
context at the start. Nothing beside that way has a part in it. -/
namespace GraphQL

namespace Tree

variable {α : Type}

mutual

/-- All subtrees in preorder, each with the labels on the way down to it, its own last. -/
def ways (above : List α) : Tree α → List (List α × Tree α)
  | node a ts => (above ++ [a], node a ts) :: waysOf (above ++ [a]) ts

/-- All subtrees of a row of trees, each with the labels on the way down to it. -/
def waysOf (above : List α) : List (Tree α) → List (List α × Tree α)
  | [] => []
  | t :: ts => t.ways above ++ waysOf above ts

end

mutual

theorem map_snd_ways (above : List α) (t : Tree α) : (t.ways above).map Prod.snd = t.subtrees := by
  match t with
  | node a ts => simp [ways, subtrees, map_snd_waysOf (above ++ [a]) ts]

theorem map_snd_waysOf (above : List α) (ts : List (Tree α)) :
    (waysOf above ts).map Prod.snd = subtreesOf ts := by
  match ts with
  | [] => rfl
  | t :: ts => simp [waysOf, subtreesOf, map_snd_ways above t, map_snd_waysOf above ts]

end

end Tree

namespace Context

variable (s : Schema) (d : Document)

/-- The first fragment of a name in a document. -/
def firstFragment? (name : String) : Option FragmentDefinition :=
  d.definitions.findSome? fun
    | .fragment f => if f.name.value = name then some f else none
    | _ => none

/-- The type in a node: the root type of an operation, the type condition of a fragment or of the
fragment that is spread, the type of a field, a declared type, or the type that is defined. -/
def typeIn (n : Node) (c : Context) : Option ResolvedType :=
  match n with
  | .operation o => (s.root? o.kind).map .named
  | .fragment f => named s f.typeCondition
  | .field f =>
    (c.parentType.bind (s.field? · f.name.value)).bind fun definition => s.resolve? definition.type
  | .spread x => (firstFragment? d x.name.value).bind fun f => named s f.typeCondition
  | .inlineFragment f => (f.typeCondition.map (named s)).getD c.type
  | .fieldDefinition x => s.resolve? x.type
  | .inputDefinition x => s.resolve? x.type
  | .variableDefinition x => s.resolve? x.type
  | .typeDefinition x => (s.type? x.name.value).map .named
  | .typeExtension x => (s.type? x.name.value).map .named
  | _ => c.type

/-- A selection set selects in the type that stands before it. -/
def parentTypeIn (n : Node) (c : Context) : Option ResolvedType :=
  match n with
  | .selectionSet _ => c.type
  | _ => c.parentType

/-- The field that is selected, as the parent type defines it. -/
def fieldIn (n : Node) (c : Context) : Option FieldDefinition :=
  match n with
  | .field f => c.parentType.bind (s.field? · f.name.value)
  | _ => c.field

/-- The fragment that is defined or spread. There is none in an operation before a spread. -/
def fragmentIn (n : Node) (c : Context) : Option FragmentDefinition :=
  match n with
  | .operation _ => none
  | .fragment f => some f
  | .spread x => firstFragment? d x.name.value
  | _ => c.fragment

def operationIn (n : Node) (c : Context) : Option OperationDefinition :=
  match n with
  | .operation o => some o
  | _ => c.operation

def selectionSetIn (n : Node) (c : Context) : Option SelectionSet :=
  match n with
  | .selectionSet x => some x
  | _ => c.selectionSet

/-- The context in a node by the rules for each of its parts, from the context around it. -/
def inside (c : Context) (n : Node) : Context :=
  ⟨typeIn s d n c, parentTypeIn n c, fieldIn s n c, fragmentIn d n c, operationIn n c,
    selectionSetIn n c⟩

theorem firstFragment?_eq (name : String) : firstFragment? d name = d.fragment? name := by
  unfold firstFragment? Document.fragment? Document.fragments
  induction d.definitions with
  | nil => rfl
  | cons x xs ih =>
    rw [List.findSome?_cons, ih]
    cases x with
    | fragment f =>
      by_cases h : f.name.value = name <;> simp [Definition.fragment?, h]
    | _ => simp [Definition.fragment?]

/-- Entering a node keeps to the rules. -/
theorem enter_eq (n : Node) (c : Context) : enter s d n c = inside s d c n := by
  cases n with
  | spread x =>
    simp only [enter, inside, typeIn, parentTypeIn, fieldIn, fragmentIn, operationIn,
      selectionSetIn, firstFragment?_eq]
  | inlineFragment f =>
    obtain ⟨o, condition, directives, selectionSet⟩ := f
    cases condition <;> rfl
  | _ => rfl

end Context

namespace Contextual

variable {α δ σ : Type}

/-- What the visitor inside is told in one visit. -/
structure Call (α δ : Type) where
  tree : Tree α
  context : Context
  data : δ

/-- Runs an action on the state of the visitor inside; all else stays as it is. -/
def onInner {β : Type} (act : EStateM Interruption σ β) : WalkM α δ σ β := fun s =>
  match act s.own.own with
  | .ok b own => .ok b { s with own := { s.own with own } }
  | .error e own => .error e { s with own := { s.own with own } }

/-- Makes calls one by one, until the visitor inside fails. -/
def hand (inner : Inner α δ σ) : List (Call α δ) → EStateM Interruption σ Unit
  | [] => pure ()
  | call :: calls => do
    inner call.tree call.context call.data
    hand inner calls

theorem hand_append (inner : Inner α δ σ) (first later : List (Call α δ)) :
    hand inner (first ++ later) = (do hand inner first; hand inner later) := by
  induction first with
  | nil => rfl
  | cons call calls ih => rw [List.cons_append, hand, hand, ih, bind_assoc]

/-- A visitor inside that always comes to its end, given by what it does to its own state. -/
def Completes (inner : Inner α δ σ) (act : Call α δ → σ → σ) : Prop :=
  ∀ t c data own, inner t c data own = .ok () (act ⟨t, c, data⟩ own)

theorem Completes.hand {inner : Inner α δ σ} {act : Call α δ → σ → σ}
    (completes : Completes inner act) (calls : List (Call α δ)) (own : σ) :
    hand inner calls own = .ok () (calls.foldl (fun own call => act call own) own) := by
  induction calls generalizing own with
  | nil => rfl
  | cons call calls ih =>
    simp only [Contextual.hand, bind, EStateM.bind, completes _ _ _ _, List.foldl_cons, ih]

section

variable (s : Schema) (d : Document) (node : α → Node) (c₀ : Context)

/-- The context at the end of a way down. -/
def contextAfter (way : List α) : Context :=
  way.foldl (fun c a => Context.inside s d c (node a)) c₀

theorem contextAfter_concat (way : List α) (a : α) :
    contextAfter s d node c₀ (way ++ [a]) =
      Context.enter s d (node a) (contextAfter s d node c₀ way) := by
  simp [contextAfter, Context.enter_eq]

/-- The calls that are due on ways down. -/
def callsFor (data : δ) (ways : List (List α × Tree α)) : List (Call α δ) :=
  ways.map fun (way, t) => ⟨t, contextAfter s d node c₀ way, data⟩

theorem callsFor_append (data : δ) (ways later : List (List α × Tree α)) :
    callsFor s d node c₀ data (ways ++ later) =
      callsFor s d node c₀ data ways ++ callsFor s d node c₀ data later := List.map_append

end

variable {s : Schema} {d : Document} {node : α → Node} {c₀ : Context} {inner : Inner α δ σ}
  {act : Call α δ → σ → σ}

mutual

/-- Below a way down, a traversal makes the calls that are due there, up to the first that fails,
and restores what it found. -/
theorem traverse_hands (data : δ) (above : List α) (t : Tree α) (n : Nat) (fits : t.size ≤ n)
    (frames : List (Frame α δ)) (own : σ) :
    Traversal.traverse (visit s d node inner) n t data
        ⟨frames, ⟨contextAfter s d node c₀ above, own⟩⟩ =
      onInner (hand inner (callsFor s d node c₀ data (t.ways above)))
        ⟨frames, ⟨contextAfter s d node c₀ above, own⟩⟩ := by
  match t, n with
  | .node a ts, 0 => simp [Tree.size] at fits
  | .node a ts, n + 1 =>
    have below : Tree.rowSize ts ≤ n := by
      rw [Tree.size] at fits
      omega
    -- Descending goes over the children of the frame that the visit has just pushed.
    have inside : (do
          handOver inner (.node a ts) data
          let _ ← Traversal.descend (Traversal.traverse (visit s d node inner) n))
        ⟨⟨.node a ts, data⟩ :: frames, ⟨contextAfter s d node c₀ (above ++ [a]), own⟩⟩ =
      onInner (hand inner (callsFor s d node c₀ data ((Tree.node a ts).ways above)))
        ⟨⟨.node a ts, data⟩ :: frames, ⟨contextAfter s d node c₀ (above ++ [a]), own⟩⟩ := by
      rw [Tree.ways, callsFor, List.map_cons, hand]
      simp only [handOver, onInner, bind, EStateM.bind]
      cases inner (.node a ts) (contextAfter s d node c₀ (above ++ [a])) data own with
      | error e own' => rfl
      | ok _ own' => exact row_hands data (above ++ [a]) ts n below (⟨.node a ts, data⟩ :: frames) own'
    simp only [Traversal.traverse, Traversal.within, visit, inContext, Traversal.push, Tree.label,
      ← contextAfter_concat, inside, onInner]
    cases hand inner (callsFor s d node c₀ data ((Tree.node a ts).ways above)) own <;> rfl

theorem row_hands (data : δ) (above : List α) (ts : List (Tree α)) (n : Nat)
    (fits : Tree.rowSize ts ≤ n) (frames : List (Frame α δ)) (own : σ) :
    (do let _ ← ts.mapM fun t => Traversal.traverse (visit s d node inner) n t data)
        ⟨frames, ⟨contextAfter s d node c₀ above, own⟩⟩ =
      onInner (hand inner (callsFor s d node c₀ data (Tree.waysOf above ts)))
        ⟨frames, ⟨contextAfter s d node c₀ above, own⟩⟩ := by
  match ts with
  | [] => rfl
  | t :: ts =>
    rw [Tree.rowSize] at fits
    rw [List.mapM_cons, Tree.waysOf, callsFor_append, hand_append]
    simp only [bind, EStateM.bind, traverse_hands data above t n (by omega) frames own, onInner]
    cases hand inner (callsFor s d node c₀ data (t.ways above)) own with
    | error e own' => rfl
    | ok _ own' =>
      have later := row_hands data above ts n (by omega) frames own'
      simp only [bind, EStateM.bind, onInner] at later
      dsimp only
      rw [← later]
      cases ts.mapM (fun t => Traversal.traverse (visit s d node inner) n t data)
        ⟨frames, ⟨contextAfter s d node c₀ above, own'⟩⟩ <;> rfl

end

/-- Below a way down, a traversal makes the calls that are due there and restores what it found. -/
theorem traverse_calls (completes : Completes inner act) (data : δ) (above : List α) (t : Tree α)
    (n : Nat) (fits : t.size ≤ n) (frames : List (Frame α δ)) (own : σ) :
    Traversal.traverse (visit s d node inner) n t data
        ⟨frames, ⟨contextAfter s d node c₀ above, own⟩⟩ =
      .ok () ⟨frames, ⟨contextAfter s d node c₀ above,
        (callsFor s d node c₀ data (t.ways above)).foldl (fun own call => act call own) own⟩⟩ := by
  rw [traverse_hands data above t n fits frames own, onInner, completes.hand]

/-- A walk with contexts depends on the ways down alone. The visitor inside is called once for each
node, in preorder and with the data of the walk, and the context it is told is the one at the start
taken by the rules along the way down to that node. Afterwards all is as before, but for what the
visitor inside did to its own state. -/
theorem walk_contexts (s : Schema) (d : Document) (node : α → Node) {inner : Inner α δ σ}
    {act : Call α δ → σ → σ} (completes : Completes inner act) (t : Tree α) (data : δ)
    (frames : List (Frame α δ)) (c₀ : Context) (own : σ) :
    let calls := (t.ways []).map fun (way, u) =>
      (⟨u, way.foldl (fun c a => c.inside s d (node a)) c₀, data⟩ : Call α δ)
    walkFrom s d node inner t data ⟨frames, ⟨c₀, own⟩⟩ =
        .ok () ⟨frames, ⟨c₀, calls.foldl (fun own call => act call own) own⟩⟩ ∧
      calls.map (·.tree) = t.subtrees := by
  refine ⟨traverse_calls completes data [] t t.size (Nat.le_refl _) frames own, ?_⟩
  rw [← Tree.map_snd_ways [] t, List.map_map]
  rfl

/-- Notes the sort of each node and the type that stands there. -/
def noteType (call : Call Node Nat) (log : List (String × Option String)) :
    List (String × Option String) :=
  log ++ [(call.tree.label.kind.label, call.context.type.map (·.display))]

/-- The selections `a` with `b` below it, the fragment `F`, and `c`. -/
def spreadQuery : OperationDefinition :=
  let field (name : String) (below : Option SelectionSet) : Selection :=
    .field ⟨none, none, ⟨none, name⟩, [], [], below⟩
  ⟨none, .query, none, [], [], ⟨none, [field "a" (some ⟨none, [field "b" none]⟩),
    .spread ⟨none, ⟨none, "F"⟩, []⟩, field "c" none]⟩⟩

/-- A query, the fragment that it spreads, and the types of both. -/
def spreadDocument : Document :=
  let type (name : String) : NamedType := ⟨none, ⟨none, name⟩⟩
  let field (name result : String) : FieldDefinition :=
    ⟨none, none, ⟨none, name⟩, [], .nullable (.named (type result)), []⟩
  ⟨none, [.operation spreadQuery,
    .fragment ⟨none, ⟨none, "F"⟩, type "U", [], ⟨none, []⟩⟩,
    .type ⟨none, none, ⟨none, "Query"⟩, [], .object [] [field "a" "T"]⟩,
    .type ⟨none, none, ⟨none, "T"⟩, [], .object [] [field "b" "Int"]⟩,
    .type ⟨none, none, ⟨none, "U"⟩, [], .union [type "T"]⟩]⟩

/-- After `a` and after the spread, the next selection starts from the type of the query again. -/
theorem walk_contexts_spread :
    let s := (DocumentSchema.ofDocument spreadDocument).toSchema
    let inner : Inner Node Nat (List (String × Option String)) :=
      fun t c data => modify (noteType ⟨t, c, data⟩)
    Completes inner noteType ∧
      walkFrom s spreadDocument id inner spreadQuery.tree 0 ⟨[], ⟨.empty, []⟩⟩ =
        .ok () ⟨[], ⟨.empty, [("OperationDefinition", some "Query"), ("SelectionSet", some "Query"),
          ("FieldSelection", some "T"), ("Name", some "T"), ("SelectionSet", some "T"),
          ("FieldSelection", some "Int"), ("Name", some "Int"), ("FragmentSelection", some "U"),
          ("Name", some "U"), ("FieldSelection", none), ("Name", none)]⟩⟩ := by
  intro s inner
  have completes : Completes inner noteType := fun _ _ _ _ => rfl
  refine ⟨completes, ?_⟩
  rw [(walk_contexts s spreadDocument id completes spreadQuery.tree 0 [] .empty []).1]
  cbv

end Contextual
end GraphQL
