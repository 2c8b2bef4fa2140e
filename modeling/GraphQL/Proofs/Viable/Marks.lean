import GraphQL.Parser.TypeSystem

/-! What a row of tokens leaves open: the marks that are not closed yet, how deep a text is nested
there, and where variables are refused. Nothing but tokens is looked at. -/
namespace GraphQL

namespace Punctuator

/-- Opening a mark adds it to those that are open, the outermost first; closing one takes away the
last, which has to be its counterpart. -/
def pass (opened : List Punctuator) : Punctuator → Option (List Punctuator)
  | .openBrace => some (opened ++ [.openBrace])
  | .openBracket => some (opened ++ [.openBracket])
  | .openParen => some (opened ++ [.openParen])
  | .closeBrace => if opened.getLast? = some .openBrace then some opened.dropLast else none
  | .closeBracket => if opened.getLast? = some .openBracket then some opened.dropLast else none
  | .closeParen => if opened.getLast? = some .openParen then some opened.dropLast else none
  | _ => some opened

/-- Marks around selections, values and types, which nest. -/
def nests : Punctuator → Bool
  | .openBrace | .openBracket => true
  | _ => false

/-- Marks that open nothing and close nothing. -/
def isFlat : Punctuator → Bool
  | .openBrace | .openBracket | .openParen | .closeBrace | .closeBracket | .closeParen => false
  | _ => true

end Punctuator

/-- The same for tokens. Those that are not marks change nothing. -/
def TokenKind.pass (opened : List Punctuator) : TokenKind → Option (List Punctuator)
  | .punctuator m => m.pass opened
  | _ => some opened

def TokenKind.isFlat : TokenKind → Bool
  | .punctuator m => m.isFlat
  | _ => true

/-- The marks that some tokens leave open, if they close no mark that they did not open. -/
def unclosed (ks : List TokenKind) : Option (List Punctuator) := ks.foldlM TokenKind.pass []

/-- Operations and fragments, by the token that they start with. -/
def startsExecutable (ks : List TokenKind) : Bool :=
  match ks with
  | [] => false
  | k :: _ =>
    k = .punctuator .openBrace ||
      match DefinitionKeyword.ofToken? k with
      | some (.operation _) | some .fragment => true
      | _ => false

/-- The marks that are open inside the body of a definition that is not executable. -/
def insideBody : List Punctuator → List Punctuator
  | .openBrace :: opened => opened
  | opened => opened

/-- How deep the text is nested after the first tokens of a definition: how many selection sets,
lists, objects and list types are open. The body of a definition that is not executable does not
nest. -/
def nestingAfter (ks : List TokenKind) : Nat :=
  let opened := (unclosed ks).getD []
  (if startsExecutable ks then opened else insideBody opened).countP (·.nests)

/-- After these first tokens of an executable definition no variable may be used, since definitions of
variables have begun: between the parentheses after a keyword and a name, if there is one, a dollar
sign has to start the definition of a variable. It does not if it stands between other marks, or is
the value after an equals sign. -/
def DeclaresConst (ks : List TokenKind) : Prop :=
  ∃ word names inner opened, ks = .name word :: names ++ .punctuator .openParen :: inner ∧
    (names = [] ∨ ∃ text, names = [.name text]) ∧ unclosed inner = some opened ∧
    (opened ≠ [] ∨ inner.getLast? = some (.punctuator .equals))

/-- After these first tokens of a definition no variable may be used. Definitions that are not
executable use none at all. -/
def ConstAfter (ks : List TokenKind) : Prop := startsExecutable ks = false ∨ DeclaresConst ks

/-- Wherever some tokens stand, they close what they open but for these marks. -/
def LeavesOpen (ks : List TokenKind) (opened : List Punctuator) : Prop :=
  ∀ before, ks.foldlM TokenKind.pass before = some (before ++ opened)

namespace LeavesOpen

variable {ks ls : List TokenKind} {a b : List Punctuator} {k : TokenKind} {m : Punctuator}

theorem unclosed (h : LeavesOpen ks a) : unclosed ks = some a := h []

theorem nil : LeavesOpen [] [] := fun before => by simp

theorem append (h : LeavesOpen ks a) (h' : LeavesOpen ls b) : LeavesOpen (ks ++ ls) (a ++ b) := by
  intro before
  rw [List.foldlM_append, h before]
  simpa using h' (before ++ a)

/-- Tokens between which everything is closed can stand in front. -/
theorem behind (h : LeavesOpen ks []) (h' : LeavesOpen ls b) : LeavesOpen (ks ++ ls) b := h.append h'

theorem flat (h : k.isFlat = true) : LeavesOpen [k] [] := by
  intro before
  cases k with
  | punctuator m =>
    cases m <;> simp [TokenKind.isFlat, Punctuator.isFlat] at h
    all_goals simp [TokenKind.pass, Punctuator.pass]
  | _ => simp [TokenKind.pass]

theorem of_flat (h : LeavesOpen (ks ++ [k]) a) (flat : k.isFlat = true) : LeavesOpen ks a := by
  intro before
  have whole := h before
  rw [List.foldlM_append] at whole
  cases read : ks.foldlM TokenKind.pass before with
  | none => simp [read] at whole
  | some opened =>
    have last : k.pass opened = some opened := by
      cases k with
      | punctuator m => cases m <;> first | rfl | simp [TokenKind.isFlat, Punctuator.isFlat] at flat
      | _ => rfl
    simpa [read, last] using whole

/-- The mark that closes another. -/
def Closes (opening closing : Punctuator) : Prop :=
  (opening, closing) ∈ [(Punctuator.openBrace, Punctuator.closeBrace),
    (.openBracket, .closeBracket), (.openParen, .closeParen)]

theorem opening {m' : Punctuator} (h : Closes m m') : LeavesOpen [.punctuator m] [m] := by
  intro before
  simp only [Closes, List.mem_cons, Prod.mk.injEq, List.not_mem_nil, or_false] at h
  rcases h with ⟨rfl, -⟩ | ⟨rfl, -⟩ | ⟨rfl, -⟩
  all_goals simp [TokenKind.pass, Punctuator.pass]

theorem closed {m' : Punctuator} (marks : Closes m m') (h : LeavesOpen ks []) :
    LeavesOpen (.punctuator m :: ks ++ [.punctuator m']) [] := by
  intro before
  have inner := ((opening marks).append h) before
  rw [List.singleton_append, List.append_nil] at inner
  rw [List.foldlM_append, inner]
  simp only [Closes, List.mem_cons, Prod.mk.injEq, List.not_mem_nil, or_false] at marks
  rcases marks with ⟨rfl, rfl⟩ | ⟨rfl, rfl⟩ | ⟨rfl, rfl⟩
  all_goals simp [TokenKind.pass, Punctuator.pass]

end LeavesOpen
end GraphQL
