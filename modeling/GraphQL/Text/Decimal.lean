import GraphQL.Text.Character

/-! Decimal numerals: what the number literals of a text denote. -/
namespace GraphQL.Text

/-- The number that decimal digits write. -/
def digitsValue (digits : List Char) : Nat :=
  digits.foldl (fun n c => 10 * n + (c.toNat - '0'.toNat)) 0

/-- A power of ten. -/
def tenTo (n : Nat) : Nat := Nat.pow 10 n

/-- A power of two. -/
def twoTo (n : Nat) : Nat := Nat.pow 2 n

/-- A decimal number: `digits * 10 ^ exponent`, negated or not. -/
structure Decimal where
  negative : Bool
  digits : Nat
  exponent : Int
  deriving DecidableEq

namespace Decimal

/-- Takes a minus sign off. -/
def splitSign : List Char → Bool × List Char
  | '-' :: cs => (true, cs)
  | cs => (false, cs)

/-- The power of ten that an exponent part writes, after its `e`. -/
def readExponent : List Char → Int
  | '-' :: cs => -(digitsValue (cs.takeWhile isDigit) : Int)
  | '+' :: cs => digitsValue (cs.takeWhile isDigit)
  | cs => digitsValue (cs.takeWhile isDigit)

/-- Reads a literal: a sign, digits, a point with digits, an exponent. All but the first digits may
be missing. -/
def ofLiteral (literal : List Char) : Decimal :=
  let (negative, cs) := splitSign literal
  let whole := cs.takeWhile isDigit
  let (places, rest) := match cs.dropWhile isDigit with
    | '.' :: r => (r.takeWhile isDigit, r.dropWhile isDigit)
    | r => ([], r)
  let power := match rest with
    | 'e' :: r | 'E' :: r => readExponent r
    | _ => 0
  ⟨negative, digitsValue (whole ++ places), power - places.length⟩

/-- The number as an integer; places after the point are cut off. -/
def toInt (d : Decimal) : Int :=
  let size : Nat :=
    if 0 ≤ d.exponent then d.digits * tenTo d.exponent.toNat
    else d.digits / tenTo (-d.exponent).toNat
  if d.negative then -size else size

end Decimal

/-- The quotient rounded to the nearest integer, a half to the even one. -/
def roundHalfEven (num den : Nat) : Nat :=
  let q := num / den
  let r := num % den
  if 2 * r < den then q
  else if den < 2 * r then q + 1
  else if q % 2 = 0 then q else q + 1

/-- The bits of the double nearest to the positive quotient `num / den`, or of infinity or beyond
where it is out of range. The result is the significand, rounded at the unit `2 ^ scale`, plus the
exponent in its field above; a significand that rounds up to the next power of two carries over. -/
def doubleBits (num den : Nat) : Nat :=
  let guess : Int := (num.log2 : Int) - den.log2
  let magnitude :=
    let (n, d) :=
      if 0 ≤ guess then (num, den * twoTo guess.toNat) else (num * twoTo (-guess).toNat, den)
    if n < d then guess - 1 else guess
  let scale := max (magnitude - 52) (-1074)
  let significand :=
    if 0 ≤ scale then roundHalfEven num (den * twoTo scale.toNat)
    else roundHalfEven (num * twoTo (-scale).toNat) den
  (scale + 1074).toNat * twoTo 52 + significand

/-- The bits of positive infinity. -/
def infinityBits : Nat := 0x7FF0000000000000

namespace Decimal

/-- The bits of the nearest double without its sign. A number of `n` digits lies below
`10 ^ (n + exponent)`, so an exponent far out of range needs no arithmetic. -/
def magnitudeBits (d : Decimal) : Nat :=
  if d.digits = 0 then 0
  else
    let top : Int := (Nat.toDigits 10 d.digits).length + d.exponent
    if 400 < top then infinityBits
    else if top < -400 then 0
    else if 0 ≤ d.exponent then doubleBits (d.digits * tenTo d.exponent.toNat) 1
    else doubleBits d.digits (tenTo (-d.exponent).toNat)

/-- The nearest double, unless it is infinite. -/
def toFloat? (d : Decimal) : Option Float :=
  let bits := d.magnitudeBits
  if bits < infinityBits then
    some (Float.ofBits (UInt64.ofNat (if d.negative then twoTo 63 + bits else bits)))
  else none

/-- The number as a signed 32-bit integer, if it is in range. -/
def toInt32? (d : Decimal) : Option Int32 :=
  let n := d.toInt
  if Int32.minValue.toInt ≤ n ∧ n ≤ Int32.maxValue.toInt then some (Int32.ofInt n) else none

end Decimal

example : (Decimal.ofLiteral "-12.50e-3".toList) = ⟨true, 1250, -5⟩ := by decide
example : doubleBits 1 10 = 0x3FB999999999999A := by decide +kernel
example : doubleBits 3 2 = 0x3FF8000000000000 := by decide +kernel

end GraphQL.Text
