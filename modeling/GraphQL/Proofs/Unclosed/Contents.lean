import GraphQL.Proofs.Viable.Marks
import GraphQL.Proofs.Extent

/-! Where a text stands after some tokens: the marks that are open there, and what each of them has
inside, told by the tokens in front of it alone. -/
namespace GraphQL

/-- What stands between two marks. -/
inductive Content where
  | selections
  | definitions
  | values
  | type
  deriving DecidableEq

/-- What a text is about, or the definition in it that is read. -/
inductive Topic where
  | executable
  | directive
  | typeSystem
  | value
  | type
  deriving DecidableEq

/-- What a definition is about that a token introduces. -/
def Topic.ofLead (k : TokenKind) : Topic :=
  if startsExecutable [k] then .executable
  else if k = .name "directive" then .directive
  else .typeSystem

/-- A definition is introduced by its first token, or by the one behind its description. -/
def Topic.ofDefinition : List TokenKind → Topic
  | .string _ :: k :: _ | .blockString _ :: k :: _ | k :: _ => ofLead k
  | [] => .typeSystem

/-- What a token stands in: what the text is about, and what the marks around the token have inside, if
there are some. -/
structure Setting where
  topic : Topic
  around : Option Content

/-- The name of a directive comes last. The list starts with the last token. -/
def endsDirective : List TokenKind → Bool
  | .name _ :: .punctuator .atSign :: _ => true
  | _ => false

/-- What an opening mark has inside, by its setting and the tokens in front of it, the last one first.
Parentheses behind the name of a directive have arguments inside, unless the directive is being defined,
and brackets behind a colon, where things are defined, have a type inside. -/
def Setting.contentOf (setting : Setting) (before : List TokenKind) : Punctuator → Option Content
  | .openBrace =>
    match setting.around, setting.topic with
    | some .selections, _ | none, .executable => some .selections
    | none, .directive | none, .typeSystem => some .definitions
    | _, _ => some .values
  | .openParen =>
    if setting.around = some .selections then some .values
    else if endsDirective before && !(setting.around = none && setting.topic = .directive) then
      some .values
    else some .definitions
  | .openBracket =>
    match setting.around, setting.topic with
    | some .type, _ | none, .type => some .type
    | some .definitions, _ =>
      if before.head? = some (.punctuator .colon) then some .type else some .values
    | _, _ => some .values
  | _ => none

/-- The mark that a closing one closes. -/
def Punctuator.opener? : Punctuator → Option Punctuator
  | .closeBrace => some .openBrace
  | .closeParen => some .openParen
  | .closeBracket => some .openBracket
  | _ => none

/-- A mark that is open. -/
structure OpenMark where
  mark : Punctuator
  token : Token
  content : Content

/-- Where a text stands after some tokens: the sorts of these, the last one first, and the marks that are
open, the innermost first. -/
structure Progress where
  before : List TokenKind
  opened : List OpenMark

namespace Progress

/-- Before the first token. -/
def start : Progress := ⟨[], []⟩

/-- What the next token stands in. -/
def setting (topic : Topic) (r : Progress) : Setting := ⟨topic, r.opened.head?.map (·.content)⟩

/-- The marks that are open behind one more mark. A closing one has to be the counterpart of the
innermost one. -/
def passMark (topic : Topic) (r : Progress) (t : Token) (m : Punctuator) : Option (List OpenMark) :=
  match (r.setting topic).contentOf r.before m, m.opener? with
  | some content, _ => some (⟨m, t, content⟩ :: r.opened)
  | none, some opening =>
    match r.opened with
    | o :: outer => if o.mark = opening then some outer else none
    | [] => none
  | none, none => some r.opened

/-- One more token. -/
def pass (topic : Topic) (r : Progress) (t : Token) : Option Progress :=
  match t.kind with
  | .punctuator m => (r.passMark topic t m).map fun opened => ⟨t.kind :: r.before, opened⟩
  | _ => some ⟨t.kind :: r.before, r.opened⟩

/-- Some more tokens. -/
def after (topic : Topic) (r : Progress) (ts : List Token) : Option Progress :=
  ts.foldlM (pass topic) r

variable {topic : Topic} {r r₁ r₂ : Progress} {t : Token} {m : Punctuator} {ts us : List Token}

@[simp] theorem after_nil : r.after topic [] = some r := rfl

@[simp] theorem after_one : r.after topic [t] = r.pass topic t := by
  simp [after]

theorem after_append (h : r.after topic ts = some r₁) :
    r.after topic (ts ++ us) = r₁.after topic us := by
  unfold after at h
  rw [after, List.foldlM_append, h]
  rfl

/-- Tokens that open nothing and close nothing leave the marks as they are. -/
theorem pass_flat (flat : t.kind.isFlat = true) :
    r.pass topic t = some ⟨t.kind :: r.before, r.opened⟩ := by
  unfold pass
  split
  · next m kind =>
    rw [kind] at flat
    have nothing : r.passMark topic t m = some r.opened := by
      cases m <;> first | rfl | simp [TokenKind.isFlat, Punctuator.isFlat] at flat
    rw [nothing, Option.map_some]
  · rfl

theorem pass_opening {content : Content} (kind : t.kind = .punctuator m)
    (opens : (r.setting topic).contentOf r.before m = some content) :
    r.pass topic t = some ⟨t.kind :: r.before, ⟨m, t, content⟩ :: r.opened⟩ := by
  simp only [pass, kind, passMark, opens, Option.map_some]

theorem pass_closing {o : OpenMark} {outer : List OpenMark} (kind : t.kind = .punctuator m)
    (opened : r.opened = o :: outer) (closes : m.opener? = some o.mark) :
    r.pass topic t = some ⟨t.kind :: r.before, outer⟩ := by
  have nothing : (r.setting topic).contentOf r.before m = none := by
    cases m <;> first | rfl | cases closes
  simp only [pass, kind, passMark, nothing, closes, opened, if_true, Option.map_some]

/-- Marks that have nothing inside and close nothing. -/
theorem flat_of_contentOf {setting : Setting} {before : List TokenKind}
    (nothing : setting.contentOf before m = none) (closes : m.opener? = none) : m.isFlat = true := by
  cases m with
  | openBrace | openParen | openBracket =>
    simp only [Setting.contentOf] at nothing
    split at nothing
    all_goals first | cases nothing | split at nothing
    all_goals cases nothing
  | closeBrace | closeParen | closeBracket => cases closes
  | _ => rfl

/-- The marks that are open are those that matching of brackets finds, whatever the text is about. -/
theorem pass_matches (h : r.pass topic t = some r₁) :
    t.kind.pass (r.opened.map (·.mark)).reverse = some (r₁.opened.map (·.mark)).reverse := by
  unfold pass at h
  split at h
  · next m kind =>
    obtain ⟨opened, passed, rfl⟩ := Option.map_eq_some_iff.mp h
    rw [kind]
    unfold passMark at passed
    split at passed
    · next content opens =>
      cases passed
      cases m with
      | openBrace | openParen | openBracket => simp [TokenKind.pass, Punctuator.pass]
      | _ => cases opens
    · next opening nothing closes =>
      split at passed
      · next o outer inner =>
        split at passed
        · next same =>
          cases passed
          cases m with
          | closeBrace | closeParen | closeBracket =>
            cases closes
            simp [TokenKind.pass, Punctuator.pass, inner, same]
          | _ => cases closes
        · cases passed
      · cases passed
    · next nothing closes =>
      cases passed
      have flat := flat_of_contentOf nothing closes
      simpa using LeavesOpen.flat (k := .punctuator m) flat (r.opened.map (·.mark)).reverse
  · next other =>
    cases h
    cases kind : t.kind with
    | punctuator m => exact absurd kind (other m)
    | _ => rfl

theorem after_matches (h : r.after topic ts = some r₁) :
    (kinds ts).foldlM TokenKind.pass (r.opened.map (·.mark)).reverse =
      some (r₁.opened.map (·.mark)).reverse := by
  induction ts generalizing r with
  | nil =>
    cases h
    rfl
  | cons t ts ih =>
    obtain ⟨r', passed, rest⟩ := Option.bind_eq_some_iff.mp h
    simp only [kinds, List.map_cons, List.foldlM_cons, pass_matches passed]
    exact ih rest

end Progress
end GraphQL
