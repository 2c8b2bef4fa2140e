import GraphQL.Text.Decimal
import Mathlib

/-! The doubles that decimal numerals denote are numbers, and how doubles are equal. No module of Mathlib
short of the whole has the facts about `Float` that this rests on. -/
namespace GraphQL.Text

open Float.Model (Format)
open Float.Model.UnpackedFloat

/-- A double of which the exponent field is not full equals itself. -/
theorem ofBits_beq_self {b : UInt64} (number : @unpackExponent Format.binary64 b.toBitVec ≠ -1#_) :
    (Float.ofBits b == Float.ofBits b) = true := by
  rw [Float.beq_self_iff]
  intro nan
  have other : @isNaNBits Format.binary64 b.toBitVec = false := by
    rw [isNaNBits, decide_eq_false_iff_not]
    exact fun bits => number bits.1
  have packed : (Float.ofBits b).toBits.toBitVec =
      if @isNaNBits Format.binary64 b.toBitVec then packedNaN Format.binary64 else b.toBitVec :=
    @pack_unpack Format.binary64 _ (by decide)
  have same : b.toBitVec = packedNaN Format.binary64 := by
    rw [nan, other] at packed
    exact packed.symm
  apply number
  rw [same, packedNaN, unpackExponent_packComponents]

/-- Doubles are equal if they are the same number, or the two zeros. -/
theorem beq_iff_unpack {x y : Float} : (x == y) = true ↔
    x.toModel.unpack ≠ .notANumber ∧ y.toModel.unpack ≠ .notANumber ∧
      (x.toModel.unpack = y.toModel.unpack ∨
        x.toModel.unpack = .zero .positive ∧ y.toModel.unpack = .zero .negative ∨
          x.toModel.unpack = .zero .negative ∧ y.toModel.unpack = .zero .positive) :=
  beq_iff_ne_notANumber_and_eq _ _

theorem float_beq_symm {x y : Float} (h : (x == y) = true) : (y == x) = true := by
  rw [beq_iff_unpack] at h ⊢
  obtain ⟨number, number', same | ⟨plus, minus⟩ | ⟨minus, plus⟩⟩ := h
  · exact ⟨number', number, .inl same.symm⟩
  · exact ⟨number', number, .inr (.inr ⟨minus, plus⟩)⟩
  · exact ⟨number', number, .inr (.inl ⟨plus, minus⟩)⟩

theorem float_beq_trans {x y z : Float} (h : (x == y) = true) (h' : (y == z) = true) :
    (x == z) = true := by
  rw [beq_iff_unpack] at h h' ⊢
  obtain ⟨number, -, same⟩ := h
  obtain ⟨-, number', same'⟩ := h'
  refine ⟨number, number', ?_⟩
  grind

/-- Only what is not a number differs from itself. -/
theorem float_beq_self {x : Float} (number : x.isNaN = false) : (x == x) = true := by
  rw [Float.beq_self_iff]
  rw [Float.isNaN_eq_decide_eq_nan] at number
  simpa using number

namespace Decimal

/-- A double that a numeral denotes equals itself. -/
theorem beq_of_toFloat? {d : Decimal} {x : Float} (h : d.toFloat? = some x) : (x == x) = true := by
  unfold toFloat? at h
  dsimp only at h
  split at h
  · next finite =>
    cases h
    apply ofBits_beq_self
    intro full
    have field := congrArg BitVec.toNat full
    simp only [unpackExponent, BitVec.toNat_cast, BitVec.extractLsb_toNat, UInt64.toNat_toBitVec,
      UInt64.toNat_ofNat', Nat.shiftRight_eq_div_pow] at field
    have exponent : (if d.negative then twoTo 63 + d.magnitudeBits else d.magnitudeBits) %
        2 ^ 64 / 2 ^ 52 % 2 ^ 11 = 2047 := field
    have bounded : d.magnitudeBits < 2047 * 2 ^ 52 := finite
    have sign : twoTo 63 = 2 ^ 63 := rfl
    split at exponent <;> omega
  · cases h

end Decimal
end GraphQL.Text
