import GraphQL.Scanner.Tiling

/-! Scanning: a source is read lexeme by lexeme, and each token or fault gets its place. -/
namespace GraphQL

/-- A source read up to some place, and what is left of it. -/
structure Scanner where
  source : Source
  place : Place
  rest : List Char

namespace Scanner

/-- A scanner at the beginning of a source. -/
def start (source : Source) : Scanner := ⟨source, .first, source.chars⟩

/-- The scanner after some characters, with what is left then. -/
def moveOver (s : Scanner) (passed rest : List Char) : Scanner :=
  ⟨s.source, s.place.pass passed, rest⟩

/-- Passes over what is ignored at the head of a text. Blanks are passed one by one, a comment is
passed at once; the number counts the characters of it that are still in front. -/
def passIgnored (p : Place) : Nat → List Char → Place × List Char
  | _, [] => (p, [])
  | passed + 1, _ :: cs => passIgnored p passed cs
  | 0, c :: cs =>
    if Lexeme.isIgnored c then passIgnored (p.step c) 0 cs
    else if c == '#' then
      let comment := cs.takeWhile (!Text.isTerminator ·)
      passIgnored (p.skip (c :: comment)) comment.length cs
    else (p, c :: cs)

/-- What is ignored is passed as if it were passed character by character. -/
theorem passIgnored_eq (p : Place) (passed : Nat) (cs : List Char) :
    passIgnored p passed cs =
      (p.pass (Lexeme.splitIgnored false (cs.drop passed)).1,
        (Lexeme.splitIgnored false (cs.drop passed)).2) := by
  fun_induction passIgnored p passed cs with
  | case1 p passed => simp [Lexeme.splitIgnored]
  | case2 p passed c cs ih => exact ih
  | case3 p c cs ignored ih => simpa [Lexeme.splitIgnored, ignored] using ih
  | case4 p c cs visible hash comment ih =>
    have line : ∀ d ∈ c :: comment, Text.isTerminator d = false := by
      rw [beq_iff_eq] at hash
      subst hash
      rw [List.forall_mem_cons]
      refine ⟨by decide, fun d hd => ?_⟩
      simpa using List.all_eq_true.mp List.all_takeWhile d hd
    have later : cs.drop comment.length = cs.dropWhile (!Text.isTerminator ·) := by
      have : (comment ++ cs.dropWhile (!Text.isTerminator ·)).drop comment.length = _ :=
        List.drop_left
      rwa [List.takeWhile_append_dropWhile] at this
    simp only [Bool.not_eq_true] at visible
    rw [ih, Place.skip_eq_pass p (by simp) line, later]
    simp [Lexeme.splitIgnored, visible, hash, Lexeme.splitIgnored_true, comment]
  | case5 p c cs visible no_hash =>
    simp only [Bool.not_eq_true] at visible no_hash
    simp [Lexeme.splitIgnored, visible, no_hash]

/-- The scanner at the next lexeme. -/
def skipIgnored (s : Scanner) : Scanner :=
  let (place, rest) := passIgnored s.place 0 s.rest
  ⟨s.source, place, rest⟩

theorem skipIgnored_eq (s : Scanner) :
    s.skipIgnored =
      s.moveOver (Lexeme.splitIgnored false s.rest).1 (Lexeme.splitIgnored false s.rest).2 := by
  simp [skipIgnored, passIgnored_eq, moveOver]

/-- A lexeme becomes a token or an error at its place. -/
def locate (s : Scanner) (l : Lexeme) : Except SyntaxError Token :=
  let start := (s.place.pass l.before).position
  let stop := (s.place.pass (l.before ++ l.taken)).position
  match l.outcome with
  | .ok kind => .ok ⟨kind, start, stop⟩
  | .error violation => .error ⟨violation, ⟨s.source, start, stop⟩, []⟩

/-- The next token or error, and the scanner after it. At the end of the source the token for that
comes again and again. Scanning can go on after an error. -/
def next (s : Scanner) : Except SyntaxError Token × Scanner :=
  let here := s.skipIgnored
  match here.rest with
  | [] => (.ok ⟨.endOfInput, here.place.position, here.place.position⟩, here)
  | c :: cs =>
    let l := Lexeme.read c cs
    (here.locate l, here.moveOver (l.before ++ l.taken) l.rest)

/-- Every step but the one at the end of the source makes what is left shorter. -/
theorem length_next (s : Scanner) :
    (∃ p, s.next.1 = .ok ⟨.endOfInput, p, p⟩) ∨ s.next.2.rest.length < s.rest.length := by
  have h := congrArg List.length (Lexeme.splitIgnored_append false s.rest)
  rw [List.length_append] at h
  unfold next
  simp only [skipIgnored_eq, moveOver]
  split
  · exact .inl ⟨_, rfl⟩
  · next c cs heq =>
    have := Lexeme.length_rest_read c cs
    rw [heq] at h
    simp only [List.length_cons] at h
    right
    simp only
    omega

end Scanner

/-- The tokens of a text in order, the end of input among them as the last; or those before the
first lexical error, and that error. -/
structure TokenStream where
  tokens : List Token
  failure : Option SyntaxError

namespace Scanner

/-- All tokens that a scanner still meets. -/
def tokens (s : Scanner) : TokenStream :=
  match _h : s.next with
  | (.error e, _) => ⟨[], some e⟩
  | (.ok t, s') =>
    if _ht : t.kind = .endOfInput then ⟨[t], none⟩
    else
      let later := s'.tokens
      ⟨t :: later.tokens, later.failure⟩
termination_by s.rest.length
decreasing_by
  rcases s.length_next with ⟨p, hp⟩ | hl
  · rw [_h] at hp; cases hp; exact absurd rfl _ht
  · rw [_h] at hl; exact hl

end Scanner

/-- The tokens of a source. -/
def Source.tokens (source : Source) : TokenStream := (Scanner.start source).tokens

end GraphQL
