import LambdaTally.Proofs.Number.Binary64
import Mathlib.Algebra.Order.Field.Power
import Mathlib.Data.Rat.Cast.Order
import Mathlib.Tactic.FieldSimp
import Mathlib.Tactic.Positivity
import Mathlib.Tactic.Ring

/-!
# LambdaTally.Proofs.Number.Exact

The rational number that a binary64 number stands for (`value`), and quotients that are not rounded. A
quotient `m · 2 ^ j` with `m` below `2 ^ 53` has a full significand after a shift (`exists_digits`), and
such a quotient is kept digit by digit (`nearest_eq`), however it is written as a fraction. So whole
numbers below `2 ^ 53` and their quotients by `2 ^ 53` are exact, and multiplying by `2 ^ -53` divides
exactly (`mul_fraction`).
-/

namespace LambdaTally
namespace Binary64

/-- The rational number that a finite number stands for. -/
def value (x : Binary64) : ℚ :=
  (if x.isNegative then -1 else 1) * x.significand * 2 ^ ((x.scale : ℤ) - 1074)

section Parts

variable {s k : Nat}

/-- A number with a full significand is taken apart again. -/
theorem parts_ofMagnitude (low : binade ≤ s) (high : s < 2 * binade) (small : k ≤ 2045) :
    (ofMagnitude false (k * binade + s)).isNegative = false ∧
      (ofMagnitude false (k * binade + s)).significand = s ∧
      (ofMagnitude false (k * binade + s)).scale = k := by
  have room : k * binade + s < signBit := by
    simp only [binade, signBit] at *
    omega
  have magnitude : (ofMagnitude false (k * binade + s)).magnitude = k * binade + s :=
    magnitude_ofMagnitude room
  have above : (k * binade + s) / binade = k + 1 := by
    simp only [binade] at *
    omega
  refine ⟨?_, ?_, ?_⟩
  · rw [isNegative, toNat_ofMagnitude room]
    exact decide_eq_false (Nat.not_le_of_lt room)
  · rw [significand, magnitude, above, if_neg (Nat.succ_ne_zero k)]
    simp only [binade] at *
    omega
  · rw [scale, magnitude, above, Nat.add_sub_cancel]

theorem value_ofMagnitude (low : binade ≤ s) (high : s < 2 * binade) (small : k ≤ 2045) :
    (ofMagnitude false (k * binade + s)).value = s * 2 ^ ((k : ℤ) - 1074) := by
  obtain ⟨sign, digits, place⟩ := parts_ofMagnitude low high small
  simp [value, sign, digits, place]

theorem value_zero : (zero false).value = 0 := by
  have digits : (zero false).significand = 0 := by decide
  simp [value, digits]

end Parts

/-! ## Where a quotient ends -/

section Place

variable {num den : Nat}

theorem quotient_bounds (num_pos : num ≠ 0) (den_pos : den ≠ 0) :
    (2 : ℚ) ^ ((num.log2 : ℤ) - den.log2 - 1) < num / den ∧
      (num / den : ℚ) < 2 ^ ((num.log2 : ℤ) - den.log2 + 1) := by
  have num_low : (2 : ℚ) ^ num.log2 ≤ num := by exact_mod_cast Nat.log2_self_le num_pos
  have num_high : (num : ℚ) < 2 ^ (num.log2 + 1) := by exact_mod_cast Nat.lt_log2_self (n := num)
  have den_low : (2 : ℚ) ^ den.log2 ≤ den := by exact_mod_cast Nat.log2_self_le den_pos
  have den_high : (den : ℚ) < 2 ^ (den.log2 + 1) := by exact_mod_cast Nat.lt_log2_self (n := den)
  have positive : (0 : ℚ) < den := by positivity
  have split (a b : Nat) : (2 : ℚ) ^ ((a : ℤ) - b) = 2 ^ a / 2 ^ b := by
    rw [zpow_sub₀ (by norm_num), zpow_natCast, zpow_natCast]
  constructor
  · have exponent : (num.log2 : ℤ) - den.log2 - 1 = (num.log2 : ℤ) - (den.log2 + 1 : ℕ) := by
      push_cast
      ring
    rw [exponent, split, div_lt_div_iff₀ (by positivity) positive]
    exact mul_lt_mul' num_low den_high positive.le (by positivity)
  · have exponent : (num.log2 : ℤ) - den.log2 + 1 = (num.log2 + 1 : ℕ) - (den.log2 : ℤ) := by
      push_cast
      ring
    rw [exponent, split, div_lt_div_iff₀ positive (by positivity)]
    exact mul_lt_mul num_high den_low (by positivity) (by positivity)

/-- The comparison that decides between two powers of two, as one of rational numbers. -/
theorem reaches_iff (den_pos : den ≠ 0) (guess : ℤ) :
    ((if 0 ≤ guess then decide (den * Nat.pow 2 guess.toNat ≤ num)
      else decide (den ≤ num * Nat.pow 2 (-guess).toNat)) = true) ↔ (2 : ℚ) ^ guess ≤ num / den := by
  have positive : (0 : ℚ) < den := by positivity
  rw [le_div_iff₀ positive]
  split
  · rename_i whole
    lift guess to ℕ using whole
    rw [decide_eq_true_iff, Int.toNat_natCast, zpow_natCast, mul_comm]
    exact_mod_cast Iff.rfl
  · rename_i part
    obtain ⟨n, rfl⟩ : ∃ n : ℕ, guess = -n := ⟨(-guess).toNat, by omega⟩
    rw [decide_eq_true_iff, neg_neg, Int.toNat_natCast, zpow_neg, zpow_natCast,
      inv_mul_le_iff₀ (by positivity), mul_comm]
    exact_mod_cast Iff.rfl

/-- The last bit that the significand of a quotient keeps, by the power of two below the quotient. The
power that the lengths of both numbers suggest is this one or the next. -/
theorem lastBit_eq (num_pos : num ≠ 0) (den_pos : den ≠ 0) {e : ℤ} (low : (2 : ℚ) ^ e ≤ num / den)
    (high : (num / den : ℚ) < 2 ^ (e + 1)) : lastBit num den = max (-1074) (e - 52) := by
  obtain ⟨below, above⟩ := quotient_bounds num_pos den_pos
  have two : (1 : ℚ) < 2 := by norm_num
  have upper : e < (num.log2 : ℤ) - den.log2 + 1 :=
    (zpow_lt_zpow_iff_right₀ two).1 (low.trans_lt above)
  have lower : (num.log2 : ℤ) - den.log2 - 1 < e + 1 :=
    (zpow_lt_zpow_iff_right₀ two).1 (below.trans high)
  unfold lastBit
  generalize (num.log2 : ℤ) - den.log2 = guess at *
  have floor : (if (2 : ℚ) ^ guess ≤ num / den then guess else guess - 1) = e := by
    split
    · rename_i reached
      have := (zpow_lt_zpow_iff_right₀ two).1 (reached.trans_lt high)
      omega
    · rename_i missed
      have := (zpow_lt_zpow_iff_right₀ two).1 (low.trans_lt (not_le.1 missed))
      omega
  rw [← floor]
  dsimp only
  congr 2
  exact if_congr (reaches_iff den_pos guess) rfl rfl

end Place

/-! ## Quotients that are not rounded -/

section Kept

variable {num den num' den' m s k : Nat} {j : ℤ}

/-- Scaled to the place of its last bit, such a quotient is whole. -/
theorem roundQuotient_eq (den_pos : den ≠ 0) (same : (num / den : ℚ) = s * 2 ^ j) :
    (if 0 ≤ j then roundQuotient num (den * Nat.pow 2 j.toNat)
      else roundQuotient (num * Nat.pow 2 (-j).toNat) den) = s := by
  have positive : 0 < den := Nat.pos_of_ne_zero den_pos
  rw [div_eq_iff (by positivity)] at same
  split
  · rename_i up
    lift j to ℕ using up
    have split : num = s * (den * 2 ^ j) := by
      rw [zpow_natCast] at same
      have : (num : ℚ) = s * (den * 2 ^ j) := by rw [same]; ring
      exact_mod_cast this
    rw [split, Int.toNat_natCast]
    exact roundQuotient_mul s (by positivity)
  · rename_i down
    obtain ⟨n, rfl⟩ : ∃ n : ℕ, j = -n := ⟨(-j).toNat, by omega⟩
    have split : num * 2 ^ n = s * den := by
      rw [zpow_neg, zpow_natCast] at same
      have : (num * 2 ^ n : ℚ) = s * den := by rw [same]; field_simp
      exact_mod_cast this
    rw [neg_neg, Int.toNat_natCast]
    exact (congrArg (roundQuotient · den) split).trans (roundQuotient_mul s positive)

/-- A quotient that has a full significand is kept as it stands. -/
theorem nearest_eq (low : binade ≤ s) (high : s < 2 * binade) (small : k ≤ 2045) (den_pos : den ≠ 0)
    (same : (num / den : ℚ) = s * 2 ^ ((k : ℤ) - 1074)) :
    nearest false num den = ofMagnitude false (k * binade + s) := by
  have two : (2 : ℚ) ≠ 0 := by norm_num
  have s_pos : 0 < s := Nat.lt_of_lt_of_le (by decide) low
  have num_pos : num ≠ 0 := by
    rintro rfl
    have : (0 : ℚ) < s * 2 ^ ((k : ℤ) - 1074) := by positivity
    simp [← same] at this
  have binade_eq : (binade : ℚ) = 2 ^ (52 : ℤ) := by norm_num [binade]
  have place : lastBit num den = (k : ℤ) - 1074 := by
    have exponent : (k : ℤ) - 1022 = 52 + ((k : ℤ) - 1074) := by ring
    rw [lastBit_eq num_pos den_pos (e := (k : ℤ) - 1022)]
    · omega
    · rw [same, exponent, zpow_add₀ two, ← binade_eq]
      gcongr
    · rw [same, exponent, add_right_comm, zpow_add₀ two, zpow_add₀ two, ← binade_eq]
      gcongr
      rw [zpow_one, mul_comm]
      exact_mod_cast high
  have finite : k * binade + s ≤ infinityMagnitude := by
    simp only [binade, infinityMagnitude] at *
    omega
  have nonzero : ¬ (num = 0 ∨ den = 0) := by simp [num_pos, den_pos]
  have units : ((k : ℤ) - 1074 + 1074).toNat = k := by omega
  rw [nearest, if_neg nonzero]
  dsimp only
  rw [place, roundQuotient_eq den_pos same, units, Nat.min_eq_right finite]

/-- A whole number of 53 bits has a full significand after a shift. -/
theorem exists_digits (pos : m ≠ 0) (h : m < 2 ^ 53) (low : -1022 ≤ j) (high : j ≤ 970) :
    ∃ s k : Nat, binade ≤ s ∧ s < 2 * binade ∧ k ≤ 2045 ∧ (m * 2 ^ j : ℚ) = s * 2 ^ ((k : ℤ) - 1074) := by
  have small := log2_lt pos h
  obtain ⟨k, place⟩ : ∃ k : ℕ, (m.log2 : ℤ) + j + 1022 = k :=
    ⟨_, (Int.toNat_of_nonneg (by omega)).symm⟩
  refine ⟨m * 2 ^ (52 - m.log2), k, ?_, ?_, by omega, ?_⟩
  · calc binade = 2 ^ m.log2 * 2 ^ (52 - m.log2) := by
          rw [← Nat.pow_add, show m.log2 + (52 - m.log2) = 52 by omega]
          rfl
      _ ≤ m * 2 ^ (52 - m.log2) := Nat.mul_le_mul_right _ (Nat.log2_self_le pos)
  · calc m * 2 ^ (52 - m.log2) < 2 ^ (m.log2 + 1) * 2 ^ (52 - m.log2) :=
          Nat.mul_lt_mul_of_pos_right Nat.lt_log2_self (by positivity)
      _ = 2 * binade := by
          rw [← Nat.pow_add, show m.log2 + 1 + (52 - m.log2) = 53 by omega]
          rfl
  · have exponent : (k : ℤ) - 1074 = j + -((52 - m.log2 : ℕ) : ℤ) := by omega
    rw [exponent, zpow_add₀ (by norm_num), zpow_neg, zpow_natCast]
    push_cast
    field_simp

/-- However a quotient of 53 bits is written, it is rounded to one number, and that has its value. -/
theorem nearest_exact (h : m < 2 ^ 53) (low : -1022 ≤ j) (high : j ≤ 970) (den_pos : den ≠ 0)
    (den_pos' : den' ≠ 0) (same : (num / den : ℚ) = m * 2 ^ j) (same' : (num' / den' : ℚ) = m * 2 ^ j) :
    nearest false num den = nearest false num' den' ∧ (nearest false num den).value = m * 2 ^ j := by
  by_cases pos : m = 0
  · subst pos
    have none_left : num = 0 := by simpa [den_pos] using same
    have none_left' : num' = 0 := by simpa [den_pos'] using same'
    have zeros (den : Nat) : nearest false 0 den = zero false := by simp [nearest]
    rw [none_left, none_left', zeros, zeros, value_zero]
    simp
  · obtain ⟨s, k, lower, upper, range, digits⟩ := exists_digits pos h low high
    rw [nearest_eq lower upper range den_pos (same.trans digits),
      nearest_eq lower upper range den_pos' (same'.trans digits), value_ofMagnitude lower upper range]
    exact ⟨rfl, digits.symm⟩

theorem value_nearest (h : m < 2 ^ 53) (low : -1022 ≤ j) (high : j ≤ 970) (den_pos : den ≠ 0)
    (same : (num / den : ℚ) = m * 2 ^ j) : (nearest false num den).value = m * 2 ^ j :=
  (nearest_exact h low high den_pos den_pos same same).2

end Kept

theorem isNegative_nearest (num den : Nat) : (nearest false num den).isNegative = false := by
  have unsigned {magnitude : Nat} (finite : magnitude ≤ infinityMagnitude) :
      (ofMagnitude false magnitude).isNegative = false := by
    have room : magnitude < signBit := Nat.lt_of_le_of_lt finite (by decide)
    rw [isNegative, toNat_ofMagnitude room]
    exact decide_eq_false (Nat.not_le_of_lt room)
  unfold nearest
  split
  · exact unsigned (Nat.zero_le _)
  · exact unsigned (Nat.min_le_left _ _)

/-! ## Products -/

/-- The product of two significands over the units of both. -/
theorem scaled_product (a b i j w : Nat) :
    Nat.pow 2 (w + w) ≠ 0 ∧ ((a * b * Nat.pow 2 (i + j) : Nat) / (Nat.pow 2 (w + w) : Nat) : ℚ) =
      a * 2 ^ ((i : ℤ) - w) * (b * 2 ^ ((j : ℤ) - w)) := by
  refine ⟨(Nat.two_pow_pos (w + w)).ne', ?_⟩
  have two : (2 : ℚ) ≠ 0 := by norm_num
  simp only [Nat.pow_eq, Nat.cast_mul, Nat.cast_pow, Nat.cast_ofNat, zpow_sub₀ two, zpow_natCast, pow_add]
  ring

/-- The product is the one of the values, rounded once. -/
theorem mul_eq_nearest {x y : Binary64} (hx : x.isNegative = false) (hy : y.isNegative = false) :
    ∃ num den, den ≠ 0 ∧ x.mul y = nearest false num den ∧ (num / den : ℚ) = x.value * y.value := by
  obtain ⟨positive, quotient⟩ := scaled_product x.significand y.significand x.scale y.scale 1074
  rw [mul, hx, hy]
  -- The product is taken over `2 ^ 2148`, which must not be computed.
  generalize width : 2148 = units
  obtain rfl : units = 1074 + 1074 := width.symm
  refine ⟨_, _, positive, rfl, ?_⟩
  rw [quotient]
  simp [value, hx, hy]

/-! ## Fractions of 53 bits -/

section Fraction

variable {m : Nat}

theorem value_ofNat (h : m < 2 ^ 53) : (ofNat m).value = m := by
  have kept : (nearest false m 1).value = m * 2 ^ (0 : ℤ) :=
    value_nearest h (by omega) (by omega) (by omega) (by simp)
  simpa [ofNat] using kept

/-- The fraction as a whole number times a power of two. -/
theorem fraction_eq (m : Nat) : (m / (Nat.pow 2 53 : Nat) : ℚ) = m * 2 ^ (-53 : ℤ) := by
  rw [zpow_neg, div_eq_mul_inv]
  norm_num

theorem value_fraction (h : m < 2 ^ 53) : (nearest false m (Nat.pow 2 53)).value = m / 2 ^ 53 := by
  rw [value_nearest h (by omega) (by omega) (by decide) (fraction_eq m), ← fraction_eq]
  norm_num

/-- Dividing by `2 ^ 53` is multiplying by its inverse: neither the inverse nor the product is rounded. -/
theorem mul_fraction (h : m < 2 ^ 53) :
    (ofNat m).mul (one.div (ofNat (Nat.pow 2 53))) = nearest false m (Nat.pow 2 53) := by
  have inverse : one.div (ofNat (Nat.pow 2 53)) = nearest false 1 (Nat.pow 2 53) := by decide +kernel
  rw [inverse]
  obtain ⟨num, den, den_pos, product, quotient⟩ :=
    mul_eq_nearest (isNegative_nearest m 1) (isNegative_nearest 1 (Nat.pow 2 53))
  have parts : (num / den : ℚ) = m * 2 ^ (-53 : ℤ) := by
    rw [quotient, ← ofNat, value_ofNat h, value_fraction (by decide), ← fraction_eq]
    norm_num
    ring
  rw [← ofNat] at product
  rw [product]
  exact (nearest_exact h (by omega) (by omega) den_pos (by decide) parts (fraction_eq m)).1

end Fraction
end Binary64
end LambdaTally
