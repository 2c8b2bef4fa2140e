import GraphQL.Proofs.Const.Runs
import GraphQL.Proofs.FirstErrors

/-! Values in const positions: the values without variables are read there as they are anywhere, and
the first variable of any other text is refused, unless the text has an error in front of it. -/
namespace GraphQL

namespace Parser

variable {position : ConstPosition} {p q : Parser Value} {c c₁ : Cursor}

theorem variableName_at {n : Name} (ready : c.Ready) (ran : variableName c = .ok (n, c₁)) :
    VariableAt c ⟨c₁.source, c.current.start, c₁.lastEnd⟩ n c₁ := by
  obtain ⟨t, c', opened, named⟩ := bind_ok.mp ran
  obtain ⟨kind, consumed⟩ : c.current.kind = .punctuator .dollar ∧ consume c = .ok (t, c') := by
    simp only [expect, bind_ok, atMark_ok] at opened
    obtain ⟨_, _, ⟨rfl, rfl⟩, opened⟩ := opened
    split at opened
    · next mark => exact ⟨by simpa using mark, opened⟩
    · simp at opened
  obtain ⟨rfl, mark⟩ := consume_reads ready (by simp [kind]) consumed
  obtain ⟨text, consumed', -⟩ := name_ok (mark.ready ready) named
  obtain ⟨-, name⟩ := consume_reads (mark.ready ready) (by simp [text]) consumed'
  have steps := mark.trans name
  exact ⟨kind, ⟨c'.current, text, steps⟩, by rw [steps.source]⟩

/-- Where a variable stands it is refused, or it is what is read. -/
theorem variable_refused (ready : c.Ready) :
    Refuses position c (fun v => [v.tree])
      ((do
        let n ← variableName
        let origin ← spanFrom c.current.start
        fail (.variable n.value position) origin) c)
      ((do
        let n ← variableName
        let origin ← spanFrom c.current.start
        return Value.variable (some origin) n) c) := by
  rw [bind_result, bind_result]
  cases ran : variableName c with
  | error e => exact .same fun _ _ failed => nomatch failed
  | ok found =>
    obtain ⟨n, c₁⟩ := found
    refine .stops (.refl c) (variableName_at ready ran) (.ok (.refl c₁) ?_)
    simp [firstVariable?, Value.tree, Tree.preorderOf, Tree.preorder, Node.kind, Value.kind]

theorem objectField_restricts (prompt : Prompt q)
    (values : Restricts position (fun v => [v.tree]) p q) :
    Restricts position (fun f => [f.tree]) (objectField p) (objectField q) := by
  refine .after (.look .here fun start => .pure start) fun start => .after name_prompt fun n =>
    .after (.expect .colon) fun _ => values.build prompt (fun v => .spanned) fun v f c c' ran => ?_
  simp only [bind_ok, pure_ok] at ran
  obtain ⟨o, _, -, rfl, -⟩ := ran
  rw [ObjectField.tree, firstVariable?_node (by simp [Node.kind])]
  rfl

/-- Values without others in them. -/
theorem leafValue_restricts :
    Restricts position (fun v => [v.tree]) (leafValue (some position)) (leafValue none) := by
  intro c steady
  rw [leafValue, leafValue, peek_bind, peek_bind]
  cases kind : c.current.kind with
  | punctuator m =>
    cases m with
    | dollar => exact variable_refused steady.ready
    | _ => exact Restricts.unexpected _ steady
  | int literal =>
    refine Restricts.plain (fun c c' v ran => ?_) steady
    simp only [bind_ok, spanFrom_ok] at ran
    obtain ⟨_, _, -, o, _, -, ran⟩ := ran
    cases read : (Text.Decimal.ofLiteral literal.toList).toInt32? with
    | none => simp [read] at ran
    | some value =>
      simp only [read, pure_ok] at ran
      obtain ⟨rfl, -⟩ := ran
      rfl
  | float literal =>
    refine Restricts.plain (fun c c' v ran => ?_) steady
    simp only [bind_ok, spanFrom_ok] at ran
    obtain ⟨_, _, -, o, _, -, ran⟩ := ran
    cases read : (Text.Decimal.ofLiteral literal.toList).toFloat? with
    | none => simp [read] at ran
    | some value =>
      simp only [read, pure_ok] at ran
      obtain ⟨rfl, -⟩ := ran
      rfl
  | string literal | blockString literal =>
    refine Restricts.plain (fun c c' v ran => ?_) steady
    obtain ⟨s, _, -, ran⟩ := bind_ok.mp ran
    cases s with
    | none => exact absurd ran unexpected_ok
    | some s =>
      obtain ⟨rfl, -⟩ := pure_ok.mp ran
      rfl
  | name word =>
    refine Restricts.plain (fun c c' v ran => ?_) steady
    simp only [bind_ok, spanFrom_ok, pure_ok] at ran
    obtain ⟨_, _, -, o, _, -, rfl, -⟩ := ran
    unfold wordValue
    split_ifs <;> rfl
  | _ => exact Restricts.unexpected _ steady

/-- Values, given those in them. -/
theorem valueWith_restricts (prompt : Prompt q)
    (values : Restricts position (fun v => [v.tree]) p q) :
    Restricts position (fun v => [v.tree]) (valueWith (some position) p) (valueWith none q) := by
  refine .after (.look .peek fun t => .pure t) fun t => ?_
  split
  · refine (values.any prompt _ _).build (prompt.any _ _) (fun vs => .spanned)
      fun vs v c c' ran => ?_
    simp only [bind_ok, pure_ok] at ran
    obtain ⟨o, _, -, rfl, -⟩ := ran
    rw [Value.tree, firstVariable?_node (by simp [Node.kind, Value.kind]), Value.trees_eq_map,
      List.map_eq_flatMap]
  · have fields := objectField_restricts prompt values
    refine (fields.any (objectField_prompt prompt) _ _).build ((objectField_prompt prompt).any _ _)
      (fun fs => .spanned) fun fs v c c' ran => ?_
    simp only [bind_ok, pure_ok] at ran
    obtain ⟨o, _, -, rfl, -⟩ := ran
    rw [Value.tree, firstVariable?_node (by simp [Node.kind, Value.kind]),
      ObjectField.trees_eq_map, List.map_eq_flatMap]
  · exact leafValue_restricts

/-- Values within a limit of levels. -/
theorem value_restricts (position : ConstPosition) (levels : Nat) :
    Restricts position (fun v => [v.tree]) (value (some position) levels) (value none levels) := by
  induction levels with
  | zero => exact .plain fun _ _ _ ran => absurd ran tooDeep_ok
  | succ levels ih => exact valueWith_restricts (value_prompt none levels) ih

theorem map_fst_ok {α : Type} {x : Except SyntaxError (α × Cursor)} {a : α} :
    x.map (·.1) = .ok a ↔ ∃ c', x = .ok (a, c') := by
  cases x <;> simp [Except.map, Prod.ext_iff]

/-- Values that are the whole input. -/
theorem alone_restricts (position : ConstPosition) (levels : Nat) :
    Restricts position (fun v => [v.tree]) (alone (value (some position) levels))
      (alone (value none levels)) := by
  refine (value_restricts position levels).build (value_prompt none levels)
    (fun v => Prompt.expectEnd.bind fun _ => .pure v) fun v w c c' ran => ?_
  simp only [bind_ok, pure_ok] at ran
  obtain ⟨_, _, -, rfl, -⟩ := ran
  rfl

end Parser

/-! ### Const values -/

mutual

/-- A value without variables has no first one. -/
theorem Value.isConst_iff (v : Value) : v.isConst = true ↔ firstVariable? [v.tree] = none := by
  match v with
  | .variable o n => simp [isConst, firstVariable?, Value.tree, Tree.preorderOf, Tree.preorder,
      Node.kind, Value.kind]
  | .list o vs =>
    rw [isConst, areConst_iff, Value.tree, firstVariable?_node (by simp [Node.kind, Value.kind])]
  | .object o fs =>
    rw [isConst, fieldsAreConst_iff, Value.tree,
      firstVariable?_node (by simp [Node.kind, Value.kind])]
  | .boolean .. | .enum .. | .float .. | .int .. | .null .. | .string .. =>
    exact ⟨fun _ => rfl, fun _ => rfl⟩

theorem Value.areConst_iff (vs : List Value) :
    Value.areConst vs = true ↔ firstVariable? (Value.trees vs) = none := by
  match vs with
  | [] => exact ⟨fun _ => rfl, fun _ => rfl⟩
  | v :: vs =>
    rw [areConst, Bool.and_eq_true, v.isConst_iff, areConst_iff vs, Value.trees,
      firstVariable?_row v.tree (Value.trees vs), Option.or_eq_none_iff]

theorem Value.fieldsAreConst_iff (fs : List ObjectField) :
    Value.fieldsAreConst fs = true ↔ firstVariable? (ObjectField.trees fs) = none := by
  match fs with
  | [] => exact ⟨fun _ => rfl, fun _ => rfl⟩
  | ⟨o, n, v⟩ :: fs =>
    have field : firstVariable? [ObjectField.tree ⟨o, n, v⟩] = firstVariable? [v.tree] := by
      rw [ObjectField.tree, firstVariable?_node (by simp [Node.kind])]
      rfl
    rw [fieldsAreConst, Bool.and_eq_true, v.isConst_iff, fieldsAreConst_iff fs, ObjectField.trees,
      firstVariable?_row _ (ObjectField.trees fs), Option.or_eq_none_iff, field]

end

open GraphQL.Parser

/-- A variable among the tokens of a source, with the place after it. -/
theorem VariableAt.among {s : Source} {c c₁ c₂ : Cursor} {ts : List Token} {o : Origin} {n : Name}
    (opens : c.Opens s) (steps : Consumes c ts c₁) (there : VariableAt c₁ o n c₂) :
    ∃ d t, s.tokens.tokens = ts ++ d :: t :: c₂.pending ∧ s.tokens.failure = c₂.failure ∧
      d.kind = .punctuator .dollar ∧ t.kind = .name n.value ∧ o = ⟨s, d.start, t.stop⟩ := by
  obtain ⟨mark, ⟨t, name, steps'⟩, rfl⟩ := there
  refine ⟨c₁.current, t, ?_, ?_, mark, name, ?_⟩
  · rw [← opens.pending, steps.pending, steps'.pending]
    rfl
  · rw [steps'.failure, steps.failure, opens.failure]
  · rw [steps.source, opens.source, steps'.lastEnd]
    rfl

/-- An error in front of which a token stands lies behind it. -/
theorem SyntaxError.At.behind {s : Source} {c : Cursor} {ts : List Token} {t : Token}
    {e : SyntaxError} (place : e.At c) (tokens : s.tokens.tokens = ts ++ t :: c.pending)
    (failure : s.tokens.failure = c.failure) : t.stop.offset ≤ e.origin.start.offset := by
  have apart : ∀ u ∈ c.pending, t.stop.offset ≤ u.start.offset := by
    have pairs := (Scanner.start s).tokens_apart
    rw [← Source.tokens, tokens, List.pairwise_append] at pairs
    exact fun u later => (List.rel_of_pairwise_cons pairs.2.1 later).2
  have here : c.current ∈ c.pending := by simp [Cursor.pending]
  rcases place with ⟨u, later, start⟩ | ⟨f, cut, start⟩
  · rw [start]
    exact apart u later
  · rw [← failure] at cut
    have ordered := (Scanner.start s).tokens_ordered.fault f cut
    rw [← Source.tokens, tokens] at ordered
    rw [start]
    exact (apart c.current here).trans (ordered.2 _ (by simp [here]))

/-- The two ways to read a value from a source compare. -/
inductive ConstCompares (s : Source) : Except SyntaxError Value → Except SyntaxError Value → Prop
  | same {x : Except SyntaxError Value} (free : ∀ v, x = .ok v → firstVariable? [v.tree] = none) :
    ConstCompares s x x
  | stops {before later : List Token} {d t : Token} {n : Name} {y : Except SyntaxError Value}
    (tokens : s.tokens.tokens = before ++ d :: t :: later) (mark : d.kind = .punctuator .dollar)
    (name : t.kind = .name n.value)
    (first : ∀ v, y = .ok v →
      firstVariable? [v.tree] = some (.value (.variable (some ⟨s, d.start, t.stop⟩) n)))
    (behind : ∀ e, y = .error e → t.stop.offset ≤ e.origin.start.offset) :
    ConstCompares s (.error ⟨.variable n.value .constValue, ⟨s, d.start, t.stop⟩, []⟩) y

theorem parseConstValue_compares (s : Source) :
    ConstCompares s s.parseConstValue s.parseValue := by
  by_cases none : s.tokens.tokens = []
  · obtain ⟨e, -, runs⟩ := run_cut (α := Value) none
    unfold Source.parseConstValue Source.parseValue Source.constValueWithin Source.valueWithin
    rw [runs, runs]
    exact .same fun _ failed => nomatch failed
  · obtain ⟨c, opens, -, runs⟩ := run_opened (α := Value) none nestingLimit
    have read := alone_restricts .constValue nestingLimit opens.steady
    unfold Source.parseConstValue Source.parseValue Source.constValueWithin Source.valueWithin
    rw [runs, runs]
    generalize alone (m := Parser) (value (some .constValue) nestingLimit) c = x,
      alone (m := Parser) (value .none nestingLimit) c = y at read
    cases read with
    | same free =>
      refine .same fun v found => ?_
      obtain ⟨c', rfl⟩ := map_fst_ok.mp found
      exact free v c' rfl
    | @stops ts c₁ c₂ o n y steps there met =>
      obtain ⟨d, t, tokens, failure, mark, name, rfl⟩ := there.among opens steps
      refine .stops tokens mark name (fun v found => ?_) fun e failed => ?_
      · obtain ⟨c', rfl⟩ := map_fst_ok.mp found
        cases met with | ok steps first => exact first
      · obtain rfl := map_error.mp failed
        have split : s.tokens.tokens = (ts ++ [d]) ++ t :: c₂.pending := by simpa using tokens
        cases met with | error place => exact place.behind split failure

/-- How what is read in a const position compares with what is read anywhere. The first variable of a
text is refused, unless there is an error in front of it. -/
theorem const_values_agree (s : Source) :
    (∀ v, s.parseConstValue = .ok v ↔ s.parseValue = .ok v ∧ v.isConst = true) ∧
    (∀ v, s.parseValue = .ok v → v.isConst = false → ∃ o n,
      v.tree.preorder.find? (·.kind = .value .variable) = some (.value (.variable (some o) n)) ∧
        s.parseConstValue = .error ⟨.variable n.value .constValue, o, []⟩) ∧
    ∀ e, s.parseValue = .error e → s.parseConstValue = .error e ∨
      ∃ before d t later text, s.tokens.tokens = before ++ d :: t :: later ∧
        d.kind = .punctuator .dollar ∧ t.kind = .name text ∧
        s.parseConstValue = .error ⟨.variable text .constValue, ⟨s, d.start, t.stop⟩, []⟩ ∧
        t.stop.offset ≤ e.origin.start.offset := by
  have read := parseConstValue_compares s
  generalize s.parseConstValue = x, s.parseValue = y at read
  cases read with
  | same free =>
    refine ⟨fun v => ⟨fun found => ⟨found, v.isConst_iff.mpr (free v found)⟩, And.left⟩,
      fun v found holds => ?_, fun e failed => .inl failed⟩
    rw [v.isConst_iff.mpr (free v found)] at holds
    cases holds
  | @stops before later d t n _ tokens mark name first behind =>
    refine ⟨fun v => ⟨fun found => (by cases found), fun ⟨found, holds⟩ => ?_⟩, fun v found _ => ?_,
      fun e failed => .inr ⟨before, d, t, later, n.value, tokens, mark, name, rfl, behind e failed⟩⟩
    · have none := v.isConst_iff.mp holds
      rw [first v found] at none
      cases none
    · rw [← firstVariable?_tree]
      exact ⟨_, n, first v found, rfl⟩

/-- A variable in front of another one and one in front of a number that is too large are refused, but
not one behind such a number. -/
theorem const_values_agree_listed :
    let s : Source := ⟨"[1, {a: [$v]}, $w]", "f"⟩
    let s' : Source := ⟨"[$ v, 2147483648]", "f"⟩
    let s'' : Source := ⟨"[2147483648, $v]", "f"⟩
    (∃ v, s.parseValue = .ok v ∧ v.isConst = false ∧ ∃ o n,
      v.tree.preorder.find? (·.kind = .value .variable) = some (.value (.variable (some o) n)) ∧
        s.parseConstValue = .error ⟨.variable n.value .constValue, o, []⟩) ∧
    (∃ e, s'.parseValue = .error e ∧ ∃ before d t later text,
      s'.tokens.tokens = before ++ d :: t :: later ∧
        d.kind = .punctuator .dollar ∧ t.kind = .name text ∧
        s'.parseConstValue = .error ⟨.variable text .constValue, ⟨s', d.start, t.stop⟩, []⟩ ∧
        t.stop.offset ≤ e.origin.start.offset) ∧
    ∃ e, s''.parseValue = .error e ∧ s''.parseConstValue = .error e := by
  intro s s' s''
  refine ⟨?_, ?_, ?_⟩
  · have read : s.parseValue.toOption.map (·.isConst) = some false := by decide +kernel
    cases found : s.parseValue with
    | error e => simp [found, Except.toOption] at read
    | ok v =>
      have holds : v.isConst = false := by simpa [found, Except.toOption] using read
      exact ⟨v, rfl, holds, (const_values_agree s).2.1 v found holds⟩
  · have range : (match s'.parseValue with
      | .error e => some e.violation
      | .ok _ => none) = some (.intRange "2147483648") := by decide +kernel
    have refused : (match s'.parseConstValue with
      | .error e => some e.violation
      | .ok _ => none) = some (.variable "v" .constValue) := by decide +kernel
    cases found : s'.parseValue with
    | ok v => simp [found] at range
    | error e =>
      refine ⟨e, rfl, ((const_values_agree s').2.2 e found).resolve_left fun same => ?_⟩
      simp only [found, same] at range refused
      simp [range] at refused
  · have range : (match s''.parseConstValue with
      | .error e => some e.violation
      | .ok _ => none) = some (.intRange "2147483648") := by decide +kernel
    have fails : s''.parseValue.isOk = false := by decide +kernel
    cases found : s''.parseValue with
    | ok v => simp [found, Except.isOk, Except.toBool] at fails
    | error e =>
      refine ⟨e, rfl, ((const_values_agree s'').2.2 e found).resolve_right ?_⟩
      rintro ⟨before, d, t, later, text, -, -, -, refused, -⟩
      simp [refused] at range

end GraphQL
