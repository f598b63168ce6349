import LambdaTally.Number.Binary64
import Mathlib.Algebra.Group.Nat.Defs

/-!
# LambdaTally.Proofs.Number.Binary64

The order of binary64 numbers by their ranks; that numbers which are not large stay finite in what is
computed from them (`isFinite_mul`); and the one quotient whose rounding matters to a draw:
`num / 2 ^ 53` with `num` below `2 ^ 53` is a binary64 number as it stands (`nearest_fraction`), so
rounding never lifts it to one (`nearest_fraction_bounds`).
-/

namespace LambdaTally
namespace Binary64

/-- At most; false as soon as one side is not a number. -/
def le (x y : Binary64) : Bool := !x.isNaN && !y.isNaN && x.rank ≤ y.rank

/-- The number one. -/
def one : Binary64 := ofNat 1

variable {x y z : Binary64}

theorem lt_iff : x.lt y ↔ x.isNaN = false ∧ y.isNaN = false ∧ x.rank < y.rank := by
  simp [lt, and_assoc]

theorem le_iff : x.le y ↔ x.isNaN = false ∧ y.isNaN = false ∧ x.rank ≤ y.rank := by
  simp [le, and_assoc]

theorem lt_of_lt_of_le (h : x.lt y) (h' : y.le z) : x.lt z := by
  obtain ⟨number, -, below⟩ := lt_iff.1 h
  obtain ⟨-, number', upto⟩ := le_iff.1 h'
  exact lt_iff.2 ⟨number, number', Int.lt_of_lt_of_le below upto⟩

theorem lt_of_le_of_lt (h : x.le y) (h' : y.lt z) : x.lt z := by
  obtain ⟨number, -, upto⟩ := le_iff.1 h
  obtain ⟨-, number', below⟩ := lt_iff.1 h'
  exact lt_iff.2 ⟨number, number', Int.lt_of_le_of_lt upto below⟩

/-! ## Numbers without a sign -/

section Magnitude

variable {m : Nat}

theorem toNat_ofMagnitude (h : m < signBit) : (ofMagnitude false m).bits.toNat = m := by
  have word : m < 2 ^ 64 := Nat.lt_trans h (by decide)
  exact UInt64.toNat_ofNat_of_lt' word

theorem magnitude_ofMagnitude {negative : Bool} (h : m < signBit) :
    (ofMagnitude negative m).magnitude = m := by
  cases negative with
  | false => rw [magnitude, toNat_ofMagnitude h, Nat.mod_eq_of_lt h]
  | true =>
    have word : signBit + m < 2 ^ 64 := Nat.add_lt_add_left h signBit
    have bits : (ofMagnitude true m).bits.toNat = signBit + m := UInt64.toNat_ofNat_of_lt' word
    rw [magnitude, bits, Nat.add_mod_left, Nat.mod_eq_of_lt h]

theorem rank_ofMagnitude (h : m < signBit) : (ofMagnitude false m).rank = m := by
  have unsigned : (ofMagnitude false m).isNegative = false := by
    rw [isNegative, toNat_ofMagnitude h]
    exact decide_eq_false (Nat.not_le_of_lt h)
  rw [rank, unsigned, magnitude_ofMagnitude h]
  rfl

theorem isNaN_ofMagnitude (h : m ≤ infinityMagnitude) : (ofMagnitude false m).isNaN = false := by
  have below : m < signBit := Nat.lt_of_le_of_lt h (by decide)
  rw [isNaN, magnitude_ofMagnitude below]
  exact decide_eq_false (Nat.not_lt_of_le h)

theorem zero_le_ofMagnitude (h : m ≤ infinityMagnitude) : (zero false).le (ofMagnitude false m) := by
  have below : m < signBit := Nat.lt_of_le_of_lt h (by decide)
  refine le_iff.2 ⟨rfl, isNaN_ofMagnitude h, ?_⟩
  rw [rank_ofMagnitude below]
  exact Int.natCast_nonneg m

end Magnitude

/-! ## Finite numbers -/

section Finite

variable {num den k : Nat}

theorem lastBit_bounds (num den : Nat) :
    (num.log2 : Int) - den.log2 - 53 ≤ lastBit num den ∧
      lastBit num den ≤ max (-1074) ((num.log2 : Int) - den.log2 - 52) := by
  unfold lastBit
  dsimp only
  split <;> split <;> omega

theorem roundQuotient_le {bound : Nat} (h : num < 2 ^ (bound + k)) (h' : 2 ^ k ≤ den) :
    roundQuotient num den ≤ 2 ^ bound := by
  have below : num / den < 2 ^ bound := by
    refine Nat.div_lt_of_lt_mul (Nat.lt_of_lt_of_le h ?_)
    rw [Nat.pow_add, Nat.mul_comm]
    exact Nat.mul_le_mul_right _ h'
  unfold roundQuotient
  dsimp only
  split <;> omega

/-- The significand is kept with a bit or two to spare. -/
theorem scaled_roundQuotient_le (den_pos : den ≠ 0) {e : Int}
    (low : (num.log2 : Int) - den.log2 - 53 ≤ e) :
    (if 0 ≤ e then roundQuotient num (den * Nat.pow 2 e.toNat)
      else roundQuotient (num * Nat.pow 2 (-e).toNat) den) ≤ 2 ^ 54 := by
  have top : num < 2 ^ (num.log2 + 1) := Nat.lt_log2_self
  have bottom : 2 ^ den.log2 ≤ den := Nat.log2_self_le den_pos
  split
  · have wide : num < 2 ^ (54 + (den.log2 + e.toNat)) :=
      Nat.lt_of_lt_of_le top (Nat.pow_le_pow_right (by decide) (by omega))
    refine roundQuotient_le wide ?_
    rw [Nat.pow_add]
    exact Nat.mul_le_mul_right _ bottom
  · have scaled := Nat.mul_lt_mul_of_pos_right top (Nat.two_pow_pos (-e).toNat)
    rw [← Nat.pow_add] at scaled
    have wide : num * 2 ^ (-e).toNat < 2 ^ (54 + den.log2) :=
      Nat.lt_of_lt_of_le scaled (Nat.pow_le_pow_right (by decide) (by omega))
    exact roundQuotient_le wide bottom

/-- A quotient below `2 ^ k` is not rounded far beyond it. -/
theorem magnitude_nearest_le {negative : Bool} (h : num < den * 2 ^ k) (small : k ≤ 1000) :
    (nearest negative num den).magnitude ≤ (k + 1026) * binade := by
  unfold nearest
  split
  · rw [zero, magnitude_ofMagnitude (by decide)]
    exact Nat.zero_le _
  · rename_i positive
    obtain ⟨num_pos, den_pos⟩ := not_or.1 positive
    obtain ⟨low, high⟩ := lastBit_bounds num den
    have digits : num.log2 ≤ den.log2 + k := by
      have scaled := Nat.mul_lt_mul_of_pos_right (Nat.lt_log2_self (n := den)) (Nat.two_pow_pos k)
      rw [← Nat.pow_add, show den.log2 + 1 + k = den.log2 + k + 1 by omega] at scaled
      exact Nat.le_of_lt_succ ((Nat.log2_lt num_pos).2 (Nat.lt_trans h scaled))
    have place : (lastBit num den + 1074).toNat ≤ k + 1022 := by omega
    dsimp only
    rw [magnitude_ofMagnitude (Nat.lt_of_le_of_lt (Nat.min_le_left _ _) (by decide))]
    calc min infinityMagnitude _
        ≤ _ := Nat.min_le_right _ _
      _ ≤ (k + 1022) * binade + 4 * binade :=
        Nat.add_le_add (Nat.mul_le_mul_right _ place) (scaled_roundQuotient_le den_pos low)
      _ = (k + 1026) * binade := (Nat.add_mul _ _ _).symm

theorem isFinite_nearest {negative : Bool} {scale : Nat} (h : num < 2 ^ k)
    (small : k ≤ scale + 1000) : (nearest negative num (Nat.pow 2 scale)).isFinite = true := by
  have split : 2 ^ k ≤ Nat.pow 2 scale * 2 ^ (k - scale) := by
    refine Nat.le_trans (Nat.pow_le_pow_right (by decide) ?_) (Nat.le_of_eq (Nat.pow_add 2 _ _))
    omega
  have bound : (nearest negative num (Nat.pow 2 scale)).magnitude ≤ (k - scale + 1026) * binade :=
    magnitude_nearest_le (Nat.lt_of_lt_of_le h split) (by omega)
  have room : (k - scale + 1026) * binade < infinityMagnitude :=
    Nat.mul_lt_mul_of_pos_right (by omega) (by decide)
  exact decide_eq_true (Nat.lt_of_le_of_lt bound room)

theorem significand_lt (x : Binary64) : x.significand < 2 ^ 53 := by
  have fraction : x.magnitude % binade < binade := Nat.mod_lt _ (by decide)
  have room : 2 ^ 53 = 2 * binade := rfl
  unfold significand
  split <;> omega

/-- A product of numbers that are not large is finite. -/
theorem isFinite_mul {x y : Binary64} (h : x.scale + y.scale ≤ 3000) : (x.mul y).isFinite = true := by
  have product : x.significand * y.significand < 2 ^ 53 * 2 ^ 53 :=
    Nat.mul_lt_mul'' (significand_lt x) (significand_lt y)
  have scaled := Nat.mul_lt_mul_of_pos_right product (Nat.two_pow_pos (x.scale + y.scale))
  rw [← Nat.pow_add, ← Nat.pow_add] at scaled
  unfold mul
  -- The product is taken over `2 ^ 2148`, which must not be computed.
  generalize width : 2148 = scale
  exact isFinite_nearest scaled (by omega)

theorem scale_ofNat_le {n : Nat} (h : n < 2 ^ 64) : (ofNat n).scale ≤ 1090 := by
  have bound : (ofNat n).magnitude ≤ 1090 * binade :=
    magnitude_nearest_le (by rwa [Nat.one_mul]) (by decide)
  exact Nat.le_trans (Nat.sub_le _ _) (Nat.div_le_of_le_mul (by rwa [Nat.mul_comm]))

end Finite

/-! ## Fractions of 53 bits -/

theorem roundQuotient_mul (q : Nat) {den : Nat} (h : 0 < den) : roundQuotient (q * den) den = q := by
  simp [roundQuotient, Nat.mul_div_cancel _ h, h]

section Fraction

variable {num : Nat}

theorem log2_lt (pos : num ≠ 0) (h : num < 2 ^ 53) : num.log2 < 53 :=
  (Nat.log2_lt pos).2 h

theorem lastBit_fraction (pos : num ≠ 0) (h : num < 2 ^ 53) :
    lastBit num (Nat.pow 2 53) = (num.log2 : Int) - 105 := by
  have small := log2_lt pos h
  have width : (Nat.pow 2 53).log2 = 53 := Nat.log2_two_pow
  have negative : ¬ (0 : Int) ≤ (num.log2 : Int) - (53 : Nat) := by omega
  have shift : (-((num.log2 : Int) - (53 : Nat))).toNat = 53 - num.log2 := by omega
  have full : Nat.pow 2 53 ≤ num * Nat.pow 2 (53 - num.log2) := by
    have reached := Nat.mul_le_mul_right (2 ^ (53 - num.log2)) (Nat.log2_self_le pos)
    rwa [← Nat.pow_add, Nat.add_sub_cancel' (Nat.le_of_lt small)] at reached
  unfold lastBit
  simp only [width, negative, if_false, shift, decide_eq_true full, if_true]
  omega

/-- What the fraction comes to lies below the magnitude of one. -/
theorem fraction_lt (pos : num ≠ 0) (h : num < 2 ^ 53) :
    (num.log2 + 969) * binade + num * 2 ^ (52 - num.log2) < 1023 * binade := by
  have small := log2_lt pos h
  have normal : num * 2 ^ (52 - num.log2) < 2 * binade := by
    have scaled : num * 2 ^ (52 - num.log2) < 2 ^ (num.log2 + 1) * 2 ^ (52 - num.log2) :=
      Nat.mul_lt_mul_of_pos_right Nat.lt_log2_self (Nat.two_pow_pos _)
    have exponent : num.log2 + 1 + (52 - num.log2) = 53 := by omega
    rwa [← Nat.pow_add, exponent] at scaled
  have room : (num.log2 + 969) * binade + 2 * binade ≤ 1023 * binade := by
    rw [← Nat.add_mul]
    exact Nat.mul_le_mul_right _ (by omega)
  omega

/-- The quotient is a number as it stands: its exponent and its significand. -/
theorem nearest_fraction (pos : num ≠ 0) (h : num < 2 ^ 53) :
    nearest false num (Nat.pow 2 53) =
      ofMagnitude false ((num.log2 + 969) * binade + num * 2 ^ (52 - num.log2)) := by
  have small := log2_lt pos h
  have negative : ¬ (0 : Int) ≤ (num.log2 : Int) - 105 := by omega
  have shift : (-((num.log2 : Int) - 105)).toNat = (52 - num.log2) + 53 := by omega
  have place : ((num.log2 : Int) - 105 + 1074).toNat = num.log2 + 969 := by omega
  have whole : roundQuotient (num * Nat.pow 2 (52 - num.log2 + 53)) (Nat.pow 2 53) =
      num * 2 ^ (52 - num.log2) := by
    have split : num * Nat.pow 2 (52 - num.log2 + 53) =
        num * 2 ^ (52 - num.log2) * Nat.pow 2 53 := by
      rw [Nat.mul_assoc]
      exact congrArg (num * ·) (Nat.pow_add 2 (52 - num.log2) 53)
    rw [split]
    exact roundQuotient_mul _ (by decide)
  have within := fraction_lt pos h
  have finite : (num.log2 + 969) * binade + num * 2 ^ (52 - num.log2) ≤ infinityMagnitude :=
    Nat.le_of_lt (Nat.lt_trans within (by decide))
  have positive : ¬ (num = 0 ∨ Nat.pow 2 53 = 0) := by simp [pos]
  unfold nearest
  simp only [positive, if_false, lastBit_fraction pos h, negative, shift, place, whole,
    Nat.min_eq_right finite]

/-- A draw of 53 bits is at least zero and less than one. -/
theorem nearest_fraction_bounds (h : num < 2 ^ 53) :
    (zero false).le (nearest false num (Nat.pow 2 53)) ∧
      (nearest false num (Nat.pow 2 53)).lt one := by
  by_cases pos : num = 0
  · subst pos
    decide
  have within := fraction_lt pos h
  have finite := Nat.le_of_lt (Nat.lt_trans within (by decide : 1023 * binade < infinityMagnitude))
  rw [nearest_fraction pos h]
  refine ⟨zero_le_ofMagnitude finite, lt_iff.2 ⟨isNaN_ofMagnitude finite, by decide, ?_⟩⟩
  rw [rank_ofMagnitude (Nat.lt_trans within (by decide)), show one.rank = (1023 * binade : Nat) by decide]
  exact Int.ofNat_lt.2 within

end Fraction
end Binary64
end LambdaTally
