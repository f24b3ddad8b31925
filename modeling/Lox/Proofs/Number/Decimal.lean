import Lox.Number.Notation
import Lox.Proofs.Number.Rounding
import Mathlib.Algebra.Order.Field.Power
import Mathlib.Data.Rat.Cast.Order
import Mathlib.Tactic.FieldSimp
import Mathlib.Tactic.Linarith
import Mathlib.Tactic.NormNum
import Mathlib.Tactic.Positivity

/-! Decimals and the numbers nearest to them. The shortest decimal of a number reads back as the
number. -/

namespace Lox.Binary64

namespace Decimal

def value (d : Decimal) : ℚ := d.digits * 10 ^ d.exponent

lemma nearest_quotient (d : Decimal) : ∃ n m : ℕ, 0 < m ∧ d.nearest = Binary64.nearest n m ∧
    (n : ℚ) / m = d.value := by
  obtain ⟨digits, exponent⟩ := d
  cases exponent with
  | ofNat k => exact ⟨_, 1, Nat.one_pos, rfl, by simp [value]⟩
  | negSucc k =>
    refine ⟨digits, 10 ^ (k + 1), by positivity, rfl, ?_⟩
    rw [value, zpow_negSucc, div_eq_mul_inv]
    push_cast
    rfl

theorem nearest_of_value {n m : ℕ} (hm : 0 < m) {d : Decimal} (h : (n : ℚ) / m = d.value) :
    Binary64.nearest n m = d.nearest := by
  obtain ⟨n', m', hm', hd, hvalue⟩ := d.nearest_quotient
  rw [hd]
  apply nearest_congr hm hm'
  have hcross : (n : ℚ) / m = n' / m' := h.trans hvalue.symm
  rw [div_eq_div_iff (by positivity) (by positivity)] at hcross
  exact_mod_cast hcross

theorem nearest_congr {d e : Decimal} (h : d.value = e.value) : d.nearest = e.nearest := by
  obtain ⟨n, m, hm, hd, hvalue⟩ := d.nearest_quotient
  rw [hd]
  exact nearest_of_value hm (hvalue.trans h)

lemma pow_leading_le {d : Decimal} (h : 0 < d.digits) : (10 : ℚ) ^ d.leading ≤ d.value := by
  have hlength : 0 < d.text.length := Nat.length_toDigits_pos
  have hpow : 10 ^ (d.text.length - 1) ≤ d.digits := by
    by_contra hlt
    rw [Nat.not_le] at hlt
    have hone : d.text.length - 1 ≠ 0 := by
      intro hzero
      rw [hzero] at hlt
      omega
    have := (Nat.length_toDigits_le_iff (by decide) (Nat.pos_of_ne_zero hone)).2 hlt
    change d.text.length ≤ d.text.length - 1 at this
    omega
  have hleading : d.leading = (d.text.length - 1 : ℕ) + d.exponent := by
    rw [leading]
    omega
  rw [hleading, value, zpow_add₀ (by norm_num), zpow_natCast]
  gcongr
  exact_mod_cast hpow

lemma lt_pow_leading (d : Decimal) : d.value < (10 : ℚ) ^ (d.leading + 1) := by
  have hlength : 0 < d.text.length := Nat.length_toDigits_pos
  have hpow : d.digits < 10 ^ d.text.length :=
    (Nat.length_toDigits_le_iff (by decide) hlength).1 (Nat.le_refl _)
  have hleading : d.leading + 1 = (d.text.length : ℕ) + d.exponent := by
    rw [leading]
    omega
  rw [hleading, value, zpow_add₀ (by norm_num), zpow_natCast]
  gcongr
  exact_mod_cast hpow

lemma value_lt {d : Decimal} (h : d.nearest < infinity) : d.value < 2 ^ 1024 := by
  obtain ⟨n, m, hm, hd, hvalue⟩ := d.nearest_quotient
  have hlt := lt_of_nearest_lt hm (hd ▸ h)
  generalize 1024 = a at *
  rw [← hvalue, div_lt_iff₀ (by positivity)]
  exact_mod_cast hlt

lemma le_value {d : Decimal} (h : 0 < d.nearest) : 1 ≤ 2 * one * d.value := by
  obtain ⟨n, m, hm, hd, hvalue⟩ := d.nearest_quotient
  have hle := le_of_nearest_pos (hd ▸ h)
  rw [← hvalue, ← mul_div_assoc, le_div_iff₀ (by positivity), one_mul, mul_assoc,
    mul_comm (one : ℚ)]
  exact_mod_cast hle

theorem leading_bounds {d : Decimal} (hpos : 0 < d.nearest) (hlt : d.nearest < infinity) :
    -324 ≤ d.leading ∧ d.leading ≤ 308 := by
  have hdigits : 0 < d.digits := by
    by_contra hzero
    have hvalue := le_value hpos
    rw [value, Nat.eq_zero_of_not_pos hzero] at hvalue
    norm_num at hvalue
  -- The powers are named, for as numerals they would be computed.
  obtain ⟨low, hlow, hsmall⟩ : ∃ low : ℕ, low = 324 ∧ 2 * one ≤ 10 ^ low :=
    ⟨_, rfl, by decide +kernel⟩
  obtain ⟨high, hhigh, hlarge⟩ : ∃ high : ℕ, high = 309 ∧ 2 ^ 1024 ≤ 10 ^ high :=
    ⟨_, rfl, by decide +kernel⟩
  constructor
  · by_contra hleading
    have hvalue : d.value < (10 : ℚ) ^ (-low : ℤ) :=
      d.lt_pow_leading.trans_le (zpow_le_zpow_right₀ (by norm_num) (by omega))
    have hone : (2 * one : ℚ) ≤ 10 ^ low := by exact_mod_cast hsmall
    have hpow : (0 : ℚ) < 10 ^ low := by positivity
    rw [zpow_neg, zpow_natCast, ← one_div, lt_div_iff₀ hpow, mul_comm] at hvalue
    have hnonneg : 0 ≤ d.value := by
      rw [value]
      positivity
    have := le_value hpos
    nlinarith
  · by_contra hleading
    have hvalue : (10 : ℚ) ^ (high : ℤ) ≤ d.value :=
      (zpow_le_zpow_right₀ (by norm_num) (by omega)).trans (pow_leading_le hdigits)
    have hbound := value_lt hlt
    generalize 1024 = a at *
    rw [zpow_natCast] at hvalue
    have hpow : (2 : ℚ) ^ a ≤ 10 ^ high := by exact_mod_cast hlarge
    linarith

end Decimal

lemma nearest_exact {p n m : ℕ} (hp : p < infinity) (hn : one = 2 ^ n) (hm : n = m + 1) :
    (⟨units p * Nat.pow 5 n, .negSucc m⟩ : Decimal).nearest = p := by
  have hten : 10 ^ n = 5 ^ n * 2 ^ n := Nat.mul_pow 5 2 n
  apply nearest_units (Nat.pow_pos (by decide)) hp
  rw [hn, ← hm, hten, Nat.mul_assoc]
  rfl

lemma exact_nearest {p : ℕ} (hp : p < infinity) : (exact p).nearest = p := by
  have hexponent : (-1074 : ℤ) = .negSucc 1073 := rfl
  have hone := one_eq
  have hsucc : 1074 = 1073 + 1 := rfl
  rw [exact, hexponent]
  generalize 1074 = n, 1073 = m at *
  exact nearest_exact hp hone hsucc

lemma onGrid?_nearest {tie : Tie} {p : ℕ} {k : ℤ} {d : Decimal} (h : onGrid? tie p k = some d) :
    d.nearest = p := by
  unfold onGrid? at h
  dsimp only at h
  split at h
  case h_1 hbelow habove =>
    rw [beq_iff_eq] at hbelow habove
    obtain rfl := Option.some.inj h
    split
    · exact hbelow
    split
    · exact habove
    cases tie with
    | up => exact habove
    | even =>
      dsimp only
      split
      · exact hbelow
      · exact habove
  case h_2 hbelow _ =>
    obtain rfl := Option.some.inj h
    exact beq_iff_eq.1 hbelow
  case h_3 _ habove =>
    obtain rfl := Option.some.inj h
    exact beq_iff_eq.1 habove
  case h_4 => cases h

theorem shortest_nearest (tie : Tie) {p : ℕ} (hp : p < infinity) :
    (shortest tie p).nearest = p := by
  unfold shortest
  cases h : (List.range 21).findSome? fun (i : Nat) => onGrid? tie p (coarsest p - (i : Int)) with
  | none => exact exact_nearest hp
  | some d =>
    obtain ⟨i, -, hi⟩ := List.exists_of_findSome?_eq_some h
    exact onGrid?_nearest hi

end Lox.Binary64
