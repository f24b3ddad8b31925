import Lox.Number.Binary64
import Mathlib

/-! The bits of a number: its sign and its pattern say which it is. -/

namespace Lox.Binary64

open Float.Model

lemma unpackExponent_toNat (b : BitVec 64) :
    (@UnpackedFloat.unpackExponent .binary64 b).toNat = b.toNat / 2 ^ 52 % 2 ^ 11 := by
  have hexponent : Format.binary64.exponentBits = 11 := rfl
  have hmantissa : Format.binary64.mantissaBitsWithoutImplicit = 52 := rfl
  rw [UnpackedFloat.unpackExponent_def, BitVec.extractLsb'_toNat, hexponent, hmantissa,
    Nat.shiftRight_eq_div_pow]

lemma unpackMantissa_toNat (b : BitVec 64) :
    (@UnpackedFloat.unpackMantissa .binary64 b).toNat = b.toNat % 2 ^ 52 := by
  have hmantissa : Format.binary64.mantissaBitsWithoutImplicit = 52 := rfl
  rw [UnpackedFloat.unpackMantissa_def, BitVec.extractLsb'_toNat, hmantissa, Nat.shiftRight_zero]

lemma unpackExponent_eq_iff (b : BitVec 64) :
    @UnpackedFloat.unpackExponent .binary64 b = -1#_ ↔
      infinity ≤ b.toNat % signBit := by
  have hones : (-BitVec.ofNat Format.binary64.exponentBits 1).toNat = 2047 := rfl
  rw [← BitVec.toNat_inj, unpackExponent_toNat, hones, infinity, signBit]
  omega

lemma isNaNBits_iff (b : BitVec 64) :
    @UnpackedFloat.isNaNBits .binary64 b = true ↔ infinity < b.toNat % signBit := by
  have hzero : (BitVec.ofNat Format.binary64.mantissaBitsWithoutImplicit 0).toNat = 0 := rfl
  rw [UnpackedFloat.isNaNBits, decide_eq_true_iff, unpackExponent_eq_iff, ne_eq,
    ← BitVec.toNat_inj, unpackMantissa_toNat, hzero, infinity, signBit]
  omega

lemma isFinite_unpack (b : BitVec 64) :
    (UnpackedFloat.unpack Format.binary64 b).isFinite = true ↔
      @UnpackedFloat.unpackExponent .binary64 b ≠ -1#_ := by
  unfold UnpackedFloat.unpack
  dsimp only
  split
  · next hones =>
    rw [hones]
    split <;> simp [UnpackedFloat.isFinite]
  · next hones =>
    refine iff_of_true ?_ hones
    split
    · split <;> rfl
    · rfl

theorem isFinite_iff (x : Float) : x.isFinite = true ↔ pattern x < infinity := by
  have hmodel : x.isFinite =
      (UnpackedFloat.unpack Format.binary64 x.toBits.toBitVec).isFinite := rfl
  rw [hmodel, isFinite_unpack, ne_eq, unpackExponent_eq_iff, Nat.not_le]
  rfl

lemma toBits_ofBits {w : UInt64} (h : w.toNat % signBit ≤ infinity) :
    (Float.ofBits w).toBits = w := by
  apply UInt64.toBitVec_inj.1
  have hnan := mt (isNaNBits_iff w.toBitVec).1 (Nat.not_lt.2 h)
  exact (@UnpackedFloat.pack_unpack .binary64 w.toBitVec (by decide)).trans (if_neg hnan)

lemma bits_toNat (negative : Bool) {p : ℕ} (hp : p ≤ infinity) :
    (UInt64.ofNat (if negative then signBit + p else p)).toNat =
      if negative then signBit + p else p := by
  rw [UInt64.toNat_ofNat']
  apply Nat.mod_eq_of_lt
  unfold infinity at hp
  unfold signBit
  split <;> omega

lemma toBits_ofPattern (negative : Bool) {p : ℕ} (hp : p ≤ infinity) :
    (ofPattern negative p).toBits.toNat = if negative then signBit + p else p := by
  have hbits := bits_toNat negative hp
  rw [ofPattern, toBits_ofBits, hbits]
  rw [hbits]
  unfold infinity signBit at *
  split <;> omega

theorem isNegative_ofPattern (negative : Bool) {p : ℕ} (hp : p ≤ infinity) :
    isNegative (ofPattern negative p) = negative := by
  rw [isNegative, toBits_ofPattern negative hp]
  unfold infinity at hp
  unfold signBit
  cases negative with
  | true => exact decide_eq_true (Nat.le_add_right _ _)
  | false =>
    rw [if_neg Bool.false_ne_true]
    exact decide_eq_false (by omega)

theorem ofPattern_pattern (x : Float) : ofPattern (isNegative x) (pattern x) = x := by
  have hlt : x.toBits.toNat < 2 ^ 64 := x.toBits.toNat_lt
  have hbits : (if isNegative x then signBit + pattern x else pattern x) = x.toBits.toNat := by
    rw [isNegative, pattern]
    unfold signBit
    simp only [decide_eq_true_eq]
    split <;> omega
  rw [ofPattern, hbits, UInt64.ofNat_toNat, Float.ofBits_toBits]

lemma zero_of_pattern {x : Float} (h : pattern x = 0) : x = 0 ∨ x = -0 := by
  have hx := ofPattern_pattern x
  rw [h] at hx
  cases hs : isNegative x with
  | false =>
    rw [hs] at hx
    exact .inl hx.symm
  | true =>
    rw [hs] at hx
    exact .inr hx.symm

theorem beq_of_pattern {x y : Float} (hx : x.isFinite = true) (hp : pattern x = pattern y)
    (hs : pattern x ≠ 0 → isNegative x = isNegative y) : (x == y) = true := by
  have hy : y.isFinite = true := by rwa [isFinite_iff, ← hp, ← isFinite_iff]
  have hnumber : ∀ z : Float, z.isFinite = true → z ≠ Float.nan := by
    rintro z hz rfl
    cases hz
  refine Float.beq_iff_ne_nan_and_eq.2 ⟨hnumber x hx, hnumber y hy, ?_⟩
  by_cases hzero : pattern x = 0
  · rcases zero_of_pattern hzero with rfl | rfl <;>
      rcases zero_of_pattern (hp ▸ hzero) with rfl | rfl <;> tauto
  · refine .inl ?_
    rw [← ofPattern_pattern x, ← ofPattern_pattern y, hp, hs hzero]

end Lox.Binary64
