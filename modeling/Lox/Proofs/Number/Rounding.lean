import Lox.Number.Shortest
import Mathlib.Algebra.Ring.Nat

/-! Rounding a quotient to the nearest number: it depends on the value of the quotient alone, and
keeps a value that a number has. -/

namespace Lox.Binary64

lemma one_eq : one = 2 ^ 1074 := by
  unfold one
  generalize 1074 = n
  rw [Nat.one_shiftLeft]

lemma hidden_eq : hidden = 2 ^ 52 := rfl

lemma infinity_eq : infinity = 2047 * hidden := rfl

lemma roundHalfEven_mul (n : ℕ) {d : ℕ} (hd : 0 < d) : roundHalfEven (n * d) d = n := by
  simp [roundHalfEven, Nat.mul_div_cancel n hd, hd]

lemma roundHalfEven_scale (n d : ℕ) {k : ℕ} (hk : 0 < k) :
    roundHalfEven (n * k) (d * k) = roundHalfEven n d := by
  have hdiv : n * k / (d * k) = n / d := Nat.mul_div_mul_right n d hk
  have hmod : n * k % (d * k) = n % d * k := Nat.mul_mod_mul_right k n d
  have hbelow : 2 * (n % d * k) < d * k ↔ 2 * (n % d) < d := by
    rw [← Nat.mul_assoc]
    exact Nat.mul_lt_mul_right hk
  have habove : d * k < 2 * (n % d * k) ↔ d < 2 * (n % d) := by
    rw [← Nat.mul_assoc]
    exact Nat.mul_lt_mul_right hk
  simp only [roundHalfEven, hdiv, hmod, hbelow, habove]

lemma div_le_roundHalfEven (n d : ℕ) : n / d ≤ roundHalfEven n d := by
  unfold roundHalfEven
  dsimp only
  split
  · exact Nat.le_refl _
  split
  · exact Nat.le_succ _
  · exact Nat.le_add_right _ _

lemma roundHalfEven_eq_zero {n d : ℕ} (h : 2 * n < d) : roundHalfEven n d = 0 := by
  have hlt : n < d := by omega
  simp [roundHalfEven, Nat.div_eq_of_lt hlt, Nat.mod_eq_of_lt hlt, h]

lemma nearest_scale (n d : ℕ) {k : ℕ} (hk : 0 < k) : nearest (n * k) (d * k) = nearest n d := by
  have hdiv : n * k * one / (d * k) = n * one / d := by
    rw [Nat.mul_right_comm, Nat.mul_div_mul_right _ _ hk]
  have hshift : ∀ shift, (d * k) <<< shift = d <<< shift * k := by
    intro shift
    rw [Nat.shiftLeft_eq, Nat.shiftLeft_eq, Nat.mul_right_comm]
  simp only [nearest, hdiv, hshift]
  rw [Nat.mul_right_comm n k one, roundHalfEven_scale _ _ hk]

theorem nearest_congr {n d m e : ℕ} (hd : 0 < d) (he : 0 < e) (h : n * e = m * d) :
    nearest n d = nearest m e := by
  rw [← nearest_scale n d he, ← nearest_scale m e hd, h, Nat.mul_comm e d]

lemma units_of_lt {p : ℕ} (h : p < hidden) : units p = p := if_pos h

lemma units_of_le {p : ℕ} (h : hidden ≤ p) :
    units p = (hidden + p % hidden) * 2 ^ (p / hidden - 1) := by
  rw [units, if_neg (Nat.not_lt.2 h), Nat.shiftLeft_eq]

lemma log2_mantissa (p e : ℕ) : ((hidden + p % hidden) * 2 ^ e).log2 = 52 + e := by
  have hmod : p % hidden < hidden := Nat.mod_lt p (Nat.two_pow_pos 52)
  have hlow : hidden * 2 ^ e ≤ (hidden + p % hidden) * 2 ^ e :=
    Nat.mul_le_mul_right _ (Nat.le_add_right _ _)
  have hhigh : (hidden + p % hidden) * 2 ^ e < (hidden + hidden) * 2 ^ e :=
    Nat.mul_lt_mul_of_pos_right (Nat.add_lt_add_left hmod _) (Nat.two_pow_pos e)
  have hlowest : hidden * 2 ^ e = 2 ^ (52 + e) := by rw [hidden_eq, Nat.pow_add]
  have hhighest : (hidden + hidden) * 2 ^ e = 2 ^ (52 + e + 1) := by
    rw [← Nat.two_mul, Nat.mul_assoc, hlowest, Nat.pow_succ, Nat.mul_comm]
  rw [hlowest] at hlow
  rw [hhighest] at hhigh
  have hne : (hidden + p % hidden) * 2 ^ e ≠ 0 := by
    have := Nat.two_pow_pos (52 + e)
    omega
  exact (Nat.log2_eq_iff hne).2 ⟨hlow, hhigh⟩

theorem nearest_units {n d p : ℕ} (hd : 0 < d) (hp : p < infinity) (h : n * one = units p * d) :
    nearest n d = p := by
  have hdiv : n * one / d = units p := by rw [h, Nat.mul_div_cancel _ hd]
  have hle : min infinity p = p := Nat.min_eq_right (Nat.le_of_lt hp)
  simp only [nearest, hdiv]
  rw [h]
  by_cases hlt : p < hidden
  · have hlog : p.log2 - 52 = 0 := by
      by_cases hzero : p = 0
      · rw [hzero]
        rfl
      · have : p.log2 < 52 := (Nat.log2_lt hzero).2 hlt
        omega
    rw [units_of_lt hlt, hlog, Nat.shiftLeft_zero, roundHalfEven_mul p hd, Nat.zero_mul,
      Nat.zero_add, hle]
  · have hge : hidden ≤ p := Nat.not_lt.1 hlt
    have hexponent : 1 ≤ p / hidden := (Nat.one_le_div_iff (Nat.two_pow_pos 52)).2 hge
    have hlog : (units p).log2 - 52 = p / hidden - 1 := by
      rw [units_of_le hge, log2_mantissa]
      omega
    rw [hlog, units_of_le hge, Nat.shiftLeft_eq, Nat.mul_assoc, Nat.mul_comm _ d,
      roundHalfEven_mul _ (Nat.mul_pos hd (Nat.two_pow_pos _))]
    have hsplit := Nat.div_add_mod' p hidden
    have hsum : (p / hidden - 1) * hidden + (hidden + p % hidden) = p := by
      rw [Nat.sub_mul, Nat.one_mul]
      have := Nat.mul_le_mul_right hidden hexponent
      omega
    rw [hsum, hle]

lemma le_of_nearest_pos {n d : ℕ} (h : 0 < nearest n d) : d ≤ 2 * (n * one) := by
  by_contra hlt
  rw [Nat.not_le] at hlt
  have hdiv : n * one / d = 0 := Nat.div_eq_of_lt (by omega)
  have hzero : nearest n d = 0 := by
    simp only [nearest, hdiv]
    rw [Nat.log2_zero, Nat.shiftLeft_zero, roundHalfEven_eq_zero hlt]
    rfl
  omega

lemma le_log2_div {n d a b : ℕ} (hd : 0 < d) (h : 2 ^ a * d ≤ n) :
    n * 2 ^ b / d ≠ 0 ∧ a + b ≤ (n * 2 ^ b / d).log2 := by
  have hq : 2 ^ (a + b) ≤ n * 2 ^ b / d := by
    rw [Nat.le_div_iff_mul_le hd, Nat.pow_add, Nat.mul_right_comm]
    exact Nat.mul_le_mul_right _ h
  have hne : n * 2 ^ b / d ≠ 0 := Nat.ne_of_gt (Nat.lt_of_lt_of_le (Nat.two_pow_pos _) hq)
  exact ⟨hne, (Nat.le_log2 hne).2 hq⟩

lemma lt_of_nearest_lt {n d : ℕ} (hd : 0 < d) (h : nearest n d < infinity) : n < 2 ^ 1024 * d := by
  by_contra hle
  obtain ⟨hne, hlog⟩ : n * one / d ≠ 0 ∧ 1024 + 1074 ≤ (n * one / d).log2 := by
    rw [one_eq]
    exact le_log2_div hd (Nat.not_lt.1 hle)
  generalize hquotient : n * one / d = q at hne hlog
  have hmantissa : hidden ≤ roundHalfEven (n * one) (d <<< (q.log2 - 52)) := by
    refine Nat.le_trans ?_ (div_le_roundHalfEven _ _)
    rw [Nat.shiftLeft_eq, ← Nat.div_div_eq_div_mul, hquotient,
      Nat.le_div_iff_mul_le (Nat.two_pow_pos _), hidden_eq, ← Nat.pow_add]
    have hself := Nat.log2_self_le hne
    rwa [Nat.add_sub_cancel' (by omega : 52 ≤ q.log2)]
  have hexponent : 2046 * hidden ≤ (q.log2 - 52) * hidden := Nat.mul_le_mul_right _ (by omega)
  simp only [nearest, hquotient] at h
  rw [infinity_eq] at h
  omega

end Lox.Binary64
