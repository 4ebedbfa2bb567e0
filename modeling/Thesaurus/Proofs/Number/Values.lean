import Mathlib.Algebra.Order.Field.Rat
import Mathlib.Tactic.NormNum
import Thesaurus.Number.Binary64

/-!
# Values of numbers

A numeral stands for a rational number, and a binary number for a multiple of a power of two. The
bits below the sign ascend with the absolute value, from one exponent to the next as well.

- `Decimal.value`, `Binary64.value`: the numbers that are meant.
- `Decimal.absolute_eq`: the absolute value of a numeral as a fraction.
- `Binary64.value_eq`: the value of a binary number as a multiple of the smallest positive one.
- `Binary64.scaledMagnitude_strictMono`: larger bits mean a larger absolute value.
-/

namespace Thesaurus

namespace Decimal

/-- The number that a numeral stands for, without its sign. -/
def absolute (d : Decimal) : ℚ :=
  d.digits * 10 ^ d.exponent

/-- The number that a numeral stands for. -/
def value (d : Decimal) : ℚ :=
  if d.negative then -d.absolute else d.absolute

/-- The numerator of the absolute value. -/
def numerator (d : Decimal) : Nat :=
  if 0 ≤ d.exponent then d.digits * 10 ^ d.exponent.toNat else d.digits

/-- The denominator of the absolute value. -/
def denominator (d : Decimal) : Nat :=
  if 0 ≤ d.exponent then 1 else 10 ^ (-d.exponent).toNat

variable (d e : Decimal)

theorem denominator_pos : 0 < d.denominator := by
  unfold denominator
  split
  · exact Nat.one_pos
  · exact Nat.pow_pos (by decide)

theorem absolute_eq : d.absolute = d.numerator / d.denominator := by
  unfold absolute numerator denominator
  split
  · next hwhole =>
    have hexponent : (10 : ℚ) ^ d.exponent = 10 ^ d.exponent.toNat := by
      rw [← zpow_natCast, Int.toNat_of_nonneg hwhole]
    rw [hexponent, Nat.cast_mul, Nat.cast_pow, Nat.cast_ofNat, Nat.cast_one, div_one]
  · next hfraction =>
    have hexponent : (10 : ℚ) ^ d.exponent = (10 ^ (-d.exponent).toNat)⁻¹ := by
      rw [← zpow_natCast, Int.toNat_of_nonneg (by omega), zpow_neg, inv_inv]
    rw [hexponent, div_eq_mul_inv, Nat.cast_pow, Nat.cast_ofNat]

theorem absolute_nonneg : 0 ≤ d.absolute := by
  rw [absolute_eq]
  exact div_nonneg (Nat.cast_nonneg _) (Nat.cast_nonneg _)

theorem abs_value : |d.value| = d.absolute := by
  unfold value
  split
  · rw [abs_neg, abs_of_nonneg d.absolute_nonneg]
  · exact abs_of_nonneg d.absolute_nonneg

variable {d e}

theorem absolute_le_iff :
    d.absolute ≤ e.absolute ↔ d.numerator * e.denominator ≤ e.numerator * d.denominator := by
  have hdpos : (0 : ℚ) < d.denominator := Nat.cast_pos.2 d.denominator_pos
  have hepos : (0 : ℚ) < e.denominator := Nat.cast_pos.2 e.denominator_pos
  rw [absolute_eq, absolute_eq, div_le_div_iff₀ hdpos hepos]
  norm_cast

theorem numerator_pos_iff : 0 < d.numerator ↔ d.digits ≠ 0 := by
  unfold numerator
  split
  · rw [Nat.mul_pos_iff_of_pos_right (Nat.pow_pos (by decide)), Nat.pos_iff_ne_zero]
  · exact Nat.pos_iff_ne_zero

theorem absolute_eq_zero_iff : d.absolute = 0 ↔ d.digits = 0 := by
  rw [absolute, mul_eq_zero_iff_right (zpow_ne_zero _ (by norm_num)), Nat.cast_eq_zero]

end Decimal

namespace Binary64

/-! ## Binary numbers -/

/-- The absolute value of the number with the given exponent and fraction fields: a multiple of
`2 ^ -1074` below the normal numbers, and from there on a multiple, of `2 ^ 52` or above, of a unit
that each exponent doubles. -/
def absolute (magnitude : Nat) : ℚ :=
  let field := magnitude / fractions
  let fraction := magnitude % fractions
  if field = 0 then fraction * 2 ^ (-1074 : ℤ)
  else (2 ^ 52 + fraction) * 2 ^ ((field : ℤ) - 1075)

/-- The exact value. -/
def value (x : Binary64) : ℚ :=
  if x.negative then -absolute x.magnitude else absolute x.magnitude

variable {m m' field fraction : Nat}

theorem scaledMagnitude_fields (h : fraction < fractions) :
    scaledMagnitude (fractions * field + fraction) =
      if field = 0 then fraction else (fractions + fraction) * 2 ^ (field - 1) := by
  have hhigh : (fractions * field + fraction) / fractions = field := by
    rw [Nat.mul_add_div (by decide), Nat.div_eq_of_lt h, Nat.add_zero]
  have hlow : (fractions * field + fraction) % fractions = fraction := by
    rw [Nat.mul_add_mod, Nat.mod_eq_of_lt h]
  simp only [scaledMagnitude, hhigh, hlow]
  rfl

/-- The next number is larger, also if its exponent is the next one. -/
theorem scaledMagnitude_lt_succ (m : Nat) : scaledMagnitude m < scaledMagnitude (m + 1) := by
  have hfields := Nat.div_add_mod m fractions
  have hsmall : m % fractions < fractions := Nat.mod_lt _ (by decide)
  generalize m / fractions = field at hfields
  generalize m % fractions = fraction at hfields hsmall
  subst hfields
  rw [scaledMagnitude_fields hsmall]
  by_cases hlast : fraction + 1 < fractions
  · rw [Nat.add_assoc, scaledMagnitude_fields hlast]
    split
    · exact Nat.lt_succ_self _
    · exact Nat.mul_lt_mul_of_pos_right (by omega) (Nat.two_pow_pos _)
  · have hcarried : fractions * field + fraction + 1 = fractions * (field + 1) + 0 := by
      rw [Nat.mul_add, Nat.mul_one]
      omega
    rw [hcarried, scaledMagnitude_fields (by decide), if_neg (Nat.succ_ne_zero _),
      Nat.add_sub_cancel, Nat.add_zero]
    cases field with
    | zero =>
      rw [if_pos rfl, Nat.pow_zero, Nat.mul_one]
      exact hsmall
    | succ exponent =>
      rw [if_neg (Nat.succ_ne_zero _), Nat.add_sub_cancel, Nat.pow_succ', ← Nat.mul_assoc]
      exact Nat.mul_lt_mul_of_pos_right (by omega) (Nat.two_pow_pos _)

theorem scaledMagnitude_strictMono : StrictMono scaledMagnitude :=
  strictMono_nat_of_lt_succ scaledMagnitude_lt_succ

theorem absolute_eq (m : Nat) : absolute m = scaledMagnitude m * 2 ^ (-1074 : ℤ) := by
  simp only [absolute, scaledMagnitude]
  generalize m / fractions = field
  split
  · rfl
  · next hnormal =>
    have hexponent : (field : ℤ) - 1075 = (field - 1 : Nat) + -1074 := by omega
    have himplicit : ((fractions : Nat) : ℚ) = 2 ^ 52 := by norm_num [fractions]
    rw [hexponent, zpow_add₀ two_ne_zero, zpow_natCast, ← mul_assoc, Nat.pow_eq, Nat.cast_mul,
      Nat.cast_add, Nat.cast_pow, himplicit, Nat.cast_ofNat]

/-- The value is a multiple of the smallest positive number. -/
theorem value_eq (x : Binary64) : x.value = x.scaled * 2 ^ (-1074 : ℤ) := by
  unfold value scaled
  rw [absolute_eq]
  split
  · rw [Int.cast_neg, Int.cast_natCast, neg_mul]
  · rw [Int.cast_natCast]

theorem absolute_strictMono : StrictMono absolute := by
  intro m m' hless
  have hunit : (0 : ℚ) < 2 ^ (-1074 : ℤ) := zpow_pos two_pos _
  rw [absolute_eq, absolute_eq, mul_lt_mul_iff_left₀ hunit, Nat.cast_lt]
  exact scaledMagnitude_strictMono hless

theorem absolute_zero : absolute 0 = 0 :=
  zero_mul _

theorem absolute_nonneg (m : Nat) : 0 ≤ absolute m :=
  absolute_zero ▸ absolute_strictMono.monotone (Nat.zero_le m)

theorem abs_value (x : Binary64) : |x.value| = absolute x.magnitude := by
  unfold value
  split
  · rw [abs_neg, abs_of_nonneg (absolute_nonneg _)]
  · exact abs_of_nonneg (absolute_nonneg _)

end Binary64

end Thesaurus
