import GraphQL.Text.Character

/-! Strings between single quotes: what the units of their notation stand for. -/
namespace GraphQL.Text

/-- Why a string literal has no value. -/
inductive StringFault where
  /-- A backslash before a character that it cannot stand before. -/
  | escape (text : String)
  /-- A quote is missing at one of the ends. -/
  | unterminated
  /-- A `\u` escape that names no character. -/
  | unicode (text : String)
  deriving DecidableEq

/-- The wording of a fault. -/
def StringFault.message : StringFault → String
  | .escape text => s!"invalid escape sequence: `{text}`"
  | .unterminated => "unterminated string: missing closing quote"
  | .unicode text => s!"invalid unicode escape: `{text}`"

/-- Hexadecimal digits of either case. -/
def isHexDigit (c : Char) : Bool := isDigit c || ('a' ≤ c && c ≤ 'f') || ('A' ≤ c && c ≤ 'F')

/-- The value of one hexadecimal digit. -/
def hexDigit (c : Char) : Nat :=
  if isDigit c then c.toNat - '0'.toNat
  else if 'a' ≤ c then c.toNat - 'a'.toNat + 10
  else c.toNat - 'A'.toNat + 10

/-- The number that hexadecimal digits write. -/
def hexValue (digits : List Char) : Nat := digits.foldl (fun n c => 16 * n + hexDigit c) 0

/-- The character with a given code point, if there is one. -/
def scalar? (n : Nat) : Option Char := if n.isValidChar then some (Char.ofNat n) else none

/-- First halves of surrogate pairs. -/
def isLead (n : Nat) : Bool := 0xD800 ≤ n && n ≤ 0xDBFF

/-- Second halves of surrogate pairs. -/
def isTrail (n : Nat) : Bool := 0xDC00 ≤ n && n ≤ 0xDFFF

/-- The code point that a surrogate pair stands for. -/
def pairValue (lead trail : Nat) : Nat := 0x10000 + (lead - 0xD800) * 0x400 + (trail - 0xDC00)

namespace Quoted

/-- The escapes of one letter. -/
def simpleEscape? : Char → Option Char
  | 'n' => some '\n'
  | 'r' => some '\r'
  | 't' => some '\t'
  | '\\' => some '\\'
  | '"' => some '"'
  | '/' => some '/'
  | 'b' => some '\x08'
  | 'f' => some '\x0c'
  | _ => none

private def badUnicode (shown : List Char) : StringFault :=
  .unicode (String.ofList ('\\' :: 'u' :: shown))

/-- Four hexadecimal digits; the fault shows what was read, the offending character included. -/
def fixedHex (cs : List Char) : Except StringFault (Nat × List Char) :=
  let digits := (cs.take 4).takeWhile isHexDigit
  if digits.length = 4 then .ok (hexValue digits, cs.drop 4)
  else .error (badUnicode (cs.take (digits.length + 1)))

/-- Hexadecimal digits up to a closing brace. -/
def bracedHex (cs : List Char) : Except StringFault (List Char × List Char) :=
  let digits := cs.takeWhile isHexDigit
  match cs.dropWhile isHexDigit with
  | '}' :: rest => .ok (digits, rest)
  | other => .error (badUnicode ('{' :: digits ++ other.take 1))

/-- What follows the first half of a surrogate pair: the escape of a second half. -/
def trailEscape (lead : Nat) : List Char → Except StringFault (Char × List Char)
  | '\\' :: 'u' :: cs =>
    match fixedHex cs with
    | .error fault => .error fault
    | .ok (trail, rest) =>
      if isTrail trail then
        match scalar? (pairValue lead trail) with
        | some c => .ok (c, rest)
        | none => .error (.unicode ("\\u" ++ hex4 lead))
      else .error (.unicode ("\\u" ++ hex4 lead))
  | _ => .error (.unicode ("\\u" ++ hex4 lead))

/-- The character that a `\u` escape names, after the `u`. -/
def unicodeEscape : List Char → Except StringFault (Char × List Char)
  | '{' :: cs =>
    match bracedHex cs with
    | .error fault => .error fault
    | .ok (digits, rest) =>
      match digits, scalar? (hexValue digits) with
      | _ :: _, some c => .ok (c, rest)
      | _, _ => .error (badUnicode ('{' :: digits ++ ['}']))
  | cs =>
    match fixedHex cs with
    | .error fault => .error fault
    | .ok (lead, rest) =>
      if isLead lead then trailEscape lead rest
      else
        match scalar? lead with
        | some c => .ok (c, rest)
        | none => .error (.unicode ("\\u" ++ hex4 lead))

/-- One unit of a string: a character that stands for itself, or an escape. -/
def unit (c : Char) (cs : List Char) : Except StringFault (Char × List Char) :=
  if c = '\\' then
    match cs with
    | [] => .error (.escape "\\")
    | 'u' :: rest => unicodeEscape rest
    | e :: rest =>
      match simpleEscape? e with
      | some c => .ok (c, rest)
      | none => .error (.escape (String.ofList ['\\', e]))
  else .ok (c, cs)

theorem length_of_fixedHex {cs rest : List Char} {n : Nat} (h : fixedHex cs = .ok (n, rest)) :
    rest.length ≤ cs.length := by
  simp only [fixedHex] at h
  split at h
  · cases h; simp
  · cases h

theorem length_of_bracedHex {cs digits rest : List Char} (h : bracedHex cs = .ok (digits, rest)) :
    rest.length ≤ cs.length := by
  simp only [bracedHex] at h
  split at h
  · next r hr =>
    cases h
    have := (List.dropWhile_suffix (p := isHexDigit) (l := cs)).length_le
    rw [hr] at this
    simp at this; omega
  · cases h

theorem length_of_trailEscape {lead : Nat} {cs rest : List Char} {c : Char}
    (h : trailEscape lead cs = .ok (c, rest)) : rest.length ≤ cs.length := by
  unfold trailEscape at h
  split at h
  · split at h
    · cases h
    · next hf =>
      have := length_of_fixedHex hf
      split at h
      · split at h
        · cases h; simp; omega
        · cases h
      · cases h
  · cases h

theorem length_of_unicodeEscape {cs rest : List Char} {c : Char}
    (h : unicodeEscape cs = .ok (c, rest)) : rest.length ≤ cs.length := by
  unfold unicodeEscape at h
  split at h
  · split at h
    · cases h
    · next hb =>
      have := length_of_bracedHex hb
      split at h
      · cases h; simp; omega
      · cases h
  · split at h
    · cases h
    · next hf =>
      have := length_of_fixedHex hf
      split at h
      · have := length_of_trailEscape h; omega
      · split at h
        · cases h; assumption
        · cases h

/-- Every unit takes its first character at least. -/
theorem length_of_unit {c u : Char} {cs rest : List Char} (h : unit c cs = .ok (u, rest)) :
    rest.length ≤ cs.length := by
  unfold unit at h
  split at h
  · split at h
    · cases h
    · have := length_of_unicodeEscape h
      simp; omega
    · split at h
      · cases h; simp
      · cases h
  · cases h; exact Nat.le_refl _

/-- The characters that the units of a string stand for, in order. The first fault wins. -/
def decode : List Char → Except StringFault (List Char)
  | [] => .ok []
  | c :: cs =>
    match _h : unit c cs with
    | .error fault => .error fault
    | .ok (u, rest) => (decode rest).map (u :: ·)
termination_by cs => cs.length
decreasing_by
  have := length_of_unit _h
  simp; omega

/-- The value of a literal, given with its quotes. -/
def value (literal : List Char) : Except StringFault (List Char) :=
  match List.isPrefixOf? ['"'] literal with
  | none => .error .unterminated
  | some rest =>
    match List.isSuffixOf? ['"'] rest with
    | none => .error .unterminated
    | some content => decode content

end Quoted

end GraphQL.Text
