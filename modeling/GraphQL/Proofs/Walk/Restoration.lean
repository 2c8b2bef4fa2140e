import GraphQL.Proofs.Walk.Contexts
import GraphQL.Proofs.Walk.Frames

/-! Contexts after a walk: whether the visitor inside lets it come to its end or not, what the walk
found is there again, so that the next walk is like a first one. -/
namespace GraphQL.Contextual

open Traversal (stateAfter)

variable {α δ σ β : Type} {s : Schema} {d : Document} {node : α → Node}

/-- The states that walks over parts of a document lead to, however they end, from one before any
walk. Between them the state of the visitor inside may be changed at will. -/
inductive Reached (s : Schema) (d : Document) (node : α → Node) :
    Traversal α δ (Contextual σ) → Prop
  | fresh (own : σ) : Reached s d node (.start ⟨.empty, own⟩)
  | walked {st : Traversal α δ (Contextual σ)} (inner : Inner α δ σ) (t : Tree α) (data : δ) :
    Reached s d node st → Reached s d node (stateAfter (walkFrom s d node inner t data) st)
  | changed {st : Traversal α δ (Contextual σ)} (own : σ) :
    Reached s d node st → Reached s d node ⟨st.frames, ⟨st.own.context, own⟩⟩

/-- A walk makes the calls that are due, up to the first that fails, and changes nothing else. -/
theorem walkFrom_hands (inner : Inner α δ σ) (t : Tree α) (data : δ)
    (st : Traversal α δ (Contextual σ)) :
    walkFrom s d node inner t data st =
      onInner (hand inner (callsFor s d node st.own.context data (t.ways []))) st :=
  traverse_hands data [] t t.size (Nat.le_refl _) st.frames st.own.own

theorem stateAfter_walkFrom (inner : Inner α δ σ) (t : Tree α) (data : δ)
    (st : Traversal α δ (Contextual σ)) :
    stateAfter (walkFrom s d node inner t data) st =
      ⟨st.frames, ⟨st.own.context,
        stateAfter (hand inner (callsFor s d node st.own.context data (t.ways []))) st.own.own⟩⟩ := by
  rw [stateAfter, walkFrom_hands, onInner, stateAfter]
  cases hand inner (callsFor s d node st.own.context data (t.ways [])) st.own.own <;> rfl

/-- Between walks a visitor is as before its first walk, but for what the visitor inside keeps. -/
theorem Reached.eq_start {st : Traversal α δ (Contextual σ)} (reached : Reached s d node st) :
    st = .start ⟨.empty, st.own.own⟩ := by
  induction reached with
  | fresh own => rfl
  | walked inner t data _ ih =>
    rw [stateAfter_walkFrom, ih]
    rfl
  | changed own _ ih =>
    rw [ih]
    rfl

/-- A walk leaves the context and the frames as it found them, wherever it breaks off. Hence each
walk from a node with some data makes the same calls, whatever walks came before it: those that are
due from nothing known, one by one up to the first in which the visitor inside fails. -/
theorem context_restored (s : Schema) (d : Document) (node : α → Node) (t : Tree α) (data : δ) :
    (∀ (inner : Inner α δ σ) (st : Traversal α δ (Contextual σ)),
      (stateAfter (walkFrom s d node inner t data) st).frames = st.frames ∧
        (stateAfter (walkFrom s d node inner t data) st).own.context = st.own.context) ∧
      ∀ (inner : Inner α δ σ) (st : Traversal α δ (Contextual σ)), Reached s d node st →
        let calls := (t.ways []).map fun (way, u) =>
          (⟨u, way.foldl (fun c a => c.inside s d (node a)) .empty, data⟩ : Call α δ)
        walkFrom s d node inner t data st = onInner (hand inner calls) st ∧
          st = .start ⟨.empty, st.own.own⟩ := by
  constructor
  · intro inner st
    rw [stateAfter_walkFrom]
    exact ⟨rfl, rfl⟩
  · intro inner st reached
    have fresh := reached.eq_start
    refine ⟨?_, fresh⟩
    rw [walkFrom_hands, fresh]
    rfl

/-- Fails at the node of some sort; notes the sort of each node before it, and the type there. -/
def failAt (sort : String) : Inner Node Nat (List (String × Option String)) := fun t c data log =>
  if t.label.kind.label = sort then .error (.failure "stopped") log
  else .ok () (noteType ⟨t, c, data⟩ log)

/-- A walk that breaks off at the spread, in the type of the fragment, is followed by one that
breaks off nowhere. Both start with the same notes. -/
theorem context_restored_broken_off :
    let s := (DocumentSchema.ofDocument spreadDocument).toSchema
    let notes := [("OperationDefinition", some "Query"), ("SelectionSet", some "Query"),
      ("FieldSelection", some "T"), ("Name", some "T"), ("SelectionSet", some "T"),
      ("FieldSelection", some "Int"), ("Name", some "Int")]
    walkFrom s spreadDocument id (failAt "FragmentSelection") spreadQuery.tree 0
        (.start ⟨.empty, []⟩) =
      .error (.failure "stopped") (.start ⟨.empty, notes⟩) ∧
    Reached s spreadDocument id (.start ⟨.empty, notes⟩ : Traversal Node Nat _) ∧
    walkFrom s spreadDocument id (failAt "Document") spreadQuery.tree 0
        (.start ⟨.empty, notes⟩) =
      .ok () (.start ⟨.empty, notes ++ notes ++ [("FragmentSelection", some "U"),
        ("Name", some "U"), ("FieldSelection", none), ("Name", none)]⟩) := by
  intro s notes
  have restored := (context_restored (σ := List (String × Option String)) s spreadDocument id
    spreadQuery.tree 0).2
  have broken : walkFrom s spreadDocument id (failAt "FragmentSelection") spreadQuery.tree 0
      (.start ⟨.empty, []⟩) = .error (.failure "stopped") (.start ⟨.empty, notes⟩) := by
    rw [(restored _ _ (.fresh [])).1]
    cbv
  have reached : Reached s spreadDocument id (.start ⟨.empty, notes⟩ : Traversal Node Nat _) := by
    have after : Reached s spreadDocument id (stateAfter
        (walkFrom s spreadDocument id (failAt "FragmentSelection") spreadQuery.tree 0)
        (.start ⟨.empty, []⟩)) := .walked _ _ _ (.fresh [])
    rwa [stateAfter, broken] at after
  refine ⟨broken, reached, ?_⟩
  rw [(restored _ _ reached).1]
  cbv

end GraphQL.Contextual
