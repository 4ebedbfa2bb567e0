import Mathlib.Algebra.Order.Field.Rat
import Mathlib.Algebra.Order.Ring.Abs
import Mathlib.Tactic.Linarith
import Mathlib.Tactic.Ring
import Thesaurus.Proofs.Number.Values

/-!
# Rounding

A numeral is read as the binary number that is nearest to it. This is a whole number of units, which
grow with what is rounded. Rounding never turns two numerals around, so numerals of one number are
rounded alike, however they are written.

- `Binary64.roundHalfEven_le_iff`: what a fraction is rounded to.
- `Binary64.UnitOf`: the power of two that a fraction is rounded to a multiple of.
- `Binary64.UnitOf.nearest`, `Binary64.UnitOf.magnitude_le`: no number is nearer, and rounding is
  monotone.
- `Binary64.value_near_of_ofDecimal?`, `Binary64.value_le_of_ofDecimal?`: the same for numerals.
-/

namespace Thesaurus

namespace Binary64

/-! ## Rounding to whole numbers -/

variable {num den num' den' k m unit : Nat}

/-- A fraction is rounded to `k` or less if it is below the middle between `k` and the next number,
or in the middle with `k` even. -/
theorem roundHalfEven_le_iff (hden : 0 < den) : roundHalfEven num den ≤ k ↔
    2 * num < (2 * k + 1) * den ∨ 2 * num = (2 * k + 1) * den ∧ k % 2 = 0 := by
  have hparts := Nat.div_add_mod num den
  have hsmall := Nat.mod_lt num hden
  unfold roundHalfEven
  generalize num / den = q at hparts
  generalize num % den = r at hparts hsmall
  subst hparts
  rcases Nat.lt_trichotomy k q with hbelow | rfl | habove
  · obtain ⟨j, rfl⟩ := Nat.exists_eq_add_of_lt hbelow
    have hmore : (2 * k + 1) * den < 2 * (den * (k + j + 1) + r) := by nlinarith
    refine iff_of_false ?_ ?_
    · dsimp only
      split_ifs <;> omega
    · omega
  · have hmiddle : (2 * k + 1) * den = 2 * (den * k) + den := by ring
    rw [hmiddle]
    dsimp only
    split_ifs <;> omega
  · obtain ⟨j, rfl⟩ := Nat.exists_eq_add_of_lt habove
    have hless : 2 * (den * q + r) < (2 * (q + j + 1) + 1) * den := by nlinarith
    refine iff_of_true ?_ (.inl hless)
    dsimp only
    split_ifs <;> omega

/-- A fraction is rounded to no number beyond a whole one. -/
theorem roundHalfEven_le_of_le (hden : 0 < den) (h : num ≤ k * den) :
    roundHalfEven num den ≤ k := by
  rw [roundHalfEven_le_iff hden]
  left
  nlinarith

theorem le_roundHalfEven (hden : 0 < den) (h : k * den ≤ num) : k ≤ roundHalfEven num den := by
  refine ((Nat.le_div_iff_mul_le hden).2 h).trans ?_
  unfold roundHalfEven
  dsimp only
  split_ifs <;> omega

/-- Larger fractions are rounded to larger numbers. -/
theorem roundHalfEven_le (hden : 0 < den) (hden' : 0 < den') (h : num * den' ≤ num' * den) :
    roundHalfEven num den ≤ roundHalfEven num' den' := by
  have hcrossed : ∀ {k}, 2 * num' < k * den' → 2 * num < k * den := by
    intro k hbelow
    refine Nat.lt_of_mul_lt_mul_right (a := den') ?_
    nlinarith
  have hcrossedLe : ∀ {k}, 2 * num' ≤ k * den' → 2 * num ≤ k * den := by
    intro k hbelow
    refine Nat.le_of_mul_le_mul_right (c := den') ?_ hden'
    nlinarith
  rw [roundHalfEven_le_iff hden]
  rcases (roundHalfEven_le_iff hden').1 (Nat.le_refl _) with hbelow | ⟨hmiddle, heven⟩
  · exact .inl (hcrossed hbelow)
  · rcases Nat.lt_or_eq_of_le (hcrossedLe (Nat.le_of_eq hmiddle)) with hbelow | hmiddle
    · exact .inl hbelow
    · exact .inr ⟨hmiddle, heven⟩

/-- No whole number is nearer to a fraction than the one it is rounded to. -/
theorem roundHalfEven_nearest (hden : 0 < den) (k : Nat) :
    |(roundHalfEven num den : ℚ) - num / den| ≤ |(k : ℚ) - num / den| := by
  have hpos : (0 : ℚ) < den := Nat.cast_pos.2 hden
  have habove : (num / den : ℚ) ≤ roundHalfEven num den + 1 / 2 := by
    have hleast := (roundHalfEven_le_iff hden).1 (Nat.le_refl (roundHalfEven num den))
    have hdoubled : 2 * num ≤ (2 * roundHalfEven num den + 1) * den := by omega
    have hcast : (2 * num : ℚ) ≤ (2 * roundHalfEven num den + 1) * den := by exact_mod_cast hdoubled
    rw [div_le_iff₀ hpos]
    linarith
  have hbelow : k < roundHalfEven num den → (roundHalfEven num den - 1 / 2 : ℚ) ≤ num / den := by
    intro hless
    obtain ⟨r, hr⟩ := Nat.exists_eq_add_of_lt hless
    have hmore : ¬ roundHalfEven num den ≤ k + r := by omega
    rw [roundHalfEven_le_iff hden] at hmore
    have hdoubled : (2 * (k + r) + 1) * den ≤ 2 * num := by omega
    have hcast : (2 * (k + r) + 1 : ℚ) * den ≤ 2 * num := by exact_mod_cast hdoubled
    rw [hr, le_div_iff₀ hpos]
    push_cast
    linarith
  -- the fraction is at most a half away, and other whole numbers at least that
  generalize (num / den : ℚ) = x at *
  rcases Nat.lt_trichotomy k (roundHalfEven num den) with hless | rfl | hmore
  · have hstep : (k : ℚ) + 1 ≤ roundHalfEven num den := by exact_mod_cast hless
    have hnear := hbelow hless
    rw [abs_le, abs_of_nonpos (by linarith)]
    constructor <;> linarith
  · exact le_rfl
  · have hstep : (roundHalfEven num den : ℚ) + 1 ≤ k := by exact_mod_cast hmore
    rw [abs_le, abs_of_nonneg (by linarith)]
    constructor <;> linarith

/-! ## Units -/

/-- Whether `2 ^ unit` is the smallest power of two of which `num / den` holds less than `2 ^
53`. -/
structure UnitOf (num den unit : Nat) : Prop where
  enough : num < 2 * fractions * (den * 2 ^ unit)
  least : ∀ lower < unit, 2 * fractions * (den * 2 ^ lower) ≤ num

/-- The lengths of the numerator and the denominator say what the unit is, up to one. -/
theorem unitOf_guess (scale : Nat) {guess : Nat}
    (hguess : guess = (num.log2 + scale - den.log2) - 53) (hnum : num ≠ 0) (hden : den ≠ 0) :
    UnitOf (num * 2 ^ scale) den
      (if 2 * fractions * den * 2 ^ guess ≤ num * 2 ^ scale then guess + 1 else guess) := by
  have hfractionBits : 2 * fractions = 2 ^ 53 := rfl
  have hdenLower : 2 ^ den.log2 ≤ den := Nat.log2_self_le hden
  have hdenUpper : den < 2 ^ (den.log2 + 1) := Nat.lt_log2_self
  have hnumLower : 2 ^ num.log2 ≤ num := Nat.log2_self_le hnum
  have hnumUpper : num < 2 ^ (num.log2 + 1) := Nat.lt_log2_self
  -- the guess from the lengths in bits is right or one too small
  rw [hfractionBits, Nat.mul_assoc]
  split
  · next hlow =>
    refine ⟨?_, fun lower hlower => ?_⟩
    · calc num * 2 ^ scale < 2 ^ (num.log2 + 1) * 2 ^ scale :=
          Nat.mul_lt_mul_of_pos_right hnumUpper (Nat.two_pow_pos _)
        _ = 2 ^ (num.log2 + 1 + scale) := (Nat.pow_add ..).symm
        _ ≤ 2 ^ (53 + (den.log2 + (guess + 1))) := Nat.pow_le_pow_right two_pos (by omega)
        _ = 2 ^ 53 * (2 ^ den.log2 * 2 ^ (guess + 1)) := by rw [Nat.pow_add, Nat.pow_add 2 den.log2]
        _ ≤ 2 ^ 53 * (den * 2 ^ (guess + 1)) :=
          Nat.mul_le_mul_left _ (Nat.mul_le_mul_right _ hdenLower)
    · refine Nat.le_trans (Nat.mul_le_mul_left _ (Nat.mul_le_mul_left _ ?_)) hlow
      exact Nat.pow_le_pow_right two_pos (by omega)
  · next hhigh =>
    refine ⟨Nat.lt_of_not_le hhigh, fun lower hlower => ?_⟩
    calc 2 ^ 53 * (den * 2 ^ lower) ≤ 2 ^ 53 * (2 ^ (den.log2 + 1) * 2 ^ lower) :=
          Nat.mul_le_mul_left _ (Nat.mul_le_mul_right _ (Nat.le_of_lt hdenUpper))
      _ = 2 ^ (53 + (den.log2 + 1 + lower)) := by rw [← Nat.pow_add, ← Nat.pow_add]
      _ ≤ 2 ^ (num.log2 + scale) := Nat.pow_le_pow_right two_pos (by omega)
      _ = 2 ^ num.log2 * 2 ^ scale := Nat.pow_add ..
      _ ≤ num * 2 ^ scale := Nat.mul_le_mul_right _ hnumLower

section Rounded

variable {unit' : Nat}

/-- Larger fractions have larger units. -/
theorem UnitOf.le (hunit : UnitOf num den unit) (hunit' : UnitOf num' den' unit')
    (hden : 0 < den) (h : num * den' ≤ num' * den) : unit ≤ unit' := by
  by_contra hbelow
  have hmore := hunit.least unit' (Nat.lt_of_not_le hbelow)
  refine absurd (Nat.mul_le_mul_right den' hmore) (Nat.not_le_of_lt ?_)
  calc num * den' ≤ num' * den := h
    _ < 2 * fractions * (den' * 2 ^ unit') * den := Nat.mul_lt_mul_of_pos_right hunit'.enough hden
    _ = 2 * fractions * (den * 2 ^ unit') * den' := by ring

/-- A fraction is no more than `2 ^ 53` units. -/
theorem UnitOf.rounded_le (h : UnitOf num den unit) (hden : 0 < den) :
    roundHalfEven num (den * 2 ^ unit) ≤ 2 * fractions :=
  roundHalfEven_le_of_le (Nat.mul_pos hden (Nat.two_pow_pos _)) (Nat.le_of_lt h.enough)

/-- Unless its unit is the smallest, a fraction is at least `2 ^ 52` units. -/
theorem UnitOf.fractions_le (h : UnitOf num den unit) (hunit : unit ≠ 0) :
    fractions * (den * 2 ^ unit) ≤ num := by
  obtain ⟨lower, rfl⟩ := Nat.exists_eq_succ_of_ne_zero hunit
  calc fractions * (den * 2 ^ (lower + 1)) = 2 * fractions * (den * 2 ^ lower) := by ring
    _ ≤ num := h.least lower (Nat.lt_succ_self _)

theorem UnitOf.le_rounded (h : UnitOf num den unit) (hden : 0 < den) (hunit : unit ≠ 0) :
    fractions ≤ roundHalfEven num (den * 2 ^ unit) :=
  le_roundHalfEven (Nat.mul_pos hden (Nat.two_pow_pos _)) (h.fractions_le hunit)

/-- Larger fractions have larger bits: a number with a larger unit is at least `2 ^ 52` units, and
one with a smaller unit no more than `2 ^ 53`. -/
theorem UnitOf.magnitude_le (hunit : UnitOf num den unit) (hunit' : UnitOf num' den' unit')
    (hden : 0 < den) (hden' : 0 < den') (h : num * den' ≤ num' * den) :
    unit * fractions + roundHalfEven num (den * 2 ^ unit) ≤
      unit' * fractions + roundHalfEven num' (den' * 2 ^ unit') := by
  rcases Nat.lt_or_eq_of_le (hunit.le hunit' hden h) with hbelow | rfl
  · calc unit * fractions + roundHalfEven num (den * 2 ^ unit)
        ≤ unit * fractions + 2 * fractions := Nat.add_le_add_left (hunit.rounded_le hden) _
      _ = (unit + 1) * fractions + fractions := by ring
      _ ≤ unit' * fractions + roundHalfEven num' (den' * 2 ^ unit') :=
        Nat.add_le_add (Nat.mul_le_mul_right _ hbelow)
          (hunit'.le_rounded hden' (Nat.ne_of_gt (Nat.zero_lt_of_lt hbelow)))
  · refine Nat.add_le_add_left (roundHalfEven_le ?_ ?_ ?_) _
    · exact Nat.mul_pos hden (Nat.two_pow_pos _)
    · exact Nat.mul_pos hden' (Nat.two_pow_pos _)
    · calc num * (den' * 2 ^ unit) = num * den' * 2 ^ unit := (Nat.mul_assoc ..).symm
        _ ≤ num' * den * 2 ^ unit := Nat.mul_le_mul_right _ h
        _ = num' * (den * 2 ^ unit) := Nat.mul_assoc ..

/-- The number that has so many units. -/
theorem scaledMagnitude_units {r : Nat} (hr : r ≤ 2 * fractions) (h : unit ≠ 0 → fractions ≤ r) :
    scaledMagnitude (unit * fractions + r) = r * 2 ^ unit := by
  rcases Nat.lt_or_ge r fractions with hfew | hmany
  · have hsmallest : unit = 0 := by
      by_contra hlarger
      exact absurd (h hlarger) (Nat.not_le_of_lt hfew)
    rw [hsmallest, Nat.mul_comm, scaledMagnitude_fields hfew, if_pos rfl, Nat.pow_zero, Nat.mul_one]
  · obtain ⟨fraction, rfl⟩ := Nat.exists_eq_add_of_le hmany
    rcases Nat.lt_or_ge fraction fractions with hinside | hcarried
    · have hfields : unit * fractions + (fractions + fraction) =
          fractions * (unit + 1) + fraction := by ring
      rw [hfields, scaledMagnitude_fields hinside, if_neg (Nat.succ_ne_zero _), Nat.add_sub_cancel]
    · -- rounding up has reached the next exponent
      have hall : fraction = fractions := by omega
      have hfields : unit * fractions + (fractions + fractions) = fractions * (unit + 2) + 0 := by
        ring
      rw [hall, hfields, scaledMagnitude_fields (by decide), if_neg (Nat.succ_ne_zero _)]
      show (fractions + 0) * 2 ^ (unit + 1) = (fractions + fractions) * 2 ^ unit
      ring

/-- A number is so many units, or it is no more than `2 ^ 52` of them. -/
theorem exists_units (m unit : Nat) : (∃ k, scaledMagnitude m = k * 2 ^ unit) ∨
    unit ≠ 0 ∧ scaledMagnitude m ≤ fractions * 2 ^ unit := by
  have hfields := Nat.div_add_mod m fractions
  have hsmall : m % fractions < fractions := Nat.mod_lt _ (by decide)
  -- a magnitude is a field and a fraction, and the field tells its unit
  generalize m / fractions = field at hfields
  generalize m % fractions = fraction at hfields hsmall
  subst hfields
  rw [scaledMagnitude_fields hsmall]
  cases unit with
  | zero => exact .inl ⟨_, (Nat.mul_one _).symm⟩
  | succ lower =>
    split
    · exact .inr ⟨Nat.succ_ne_zero _, Nat.le_trans (Nat.le_of_lt hsmall)
        (Nat.le_mul_of_pos_right _ (Nat.two_pow_pos _))⟩
    · next hnormal =>
      rcases Nat.lt_or_ge lower (field - 1) with habove | hbelow
      · obtain ⟨j, hj⟩ := Nat.exists_eq_add_of_lt habove
        left
        refine ⟨(fractions + fraction) * 2 ^ j, ?_⟩
        rw [hj]
        ring
      · right
        refine ⟨Nat.succ_ne_zero _, ?_⟩
        calc (fractions + fraction) * 2 ^ (field - 1) ≤ (2 * fractions) * 2 ^ lower :=
              Nat.mul_le_mul (by omega) (Nat.pow_le_pow_right two_pos hbelow)
          _ = fractions * 2 ^ (lower + 1) := by ring

/-- No number is nearer to a fraction than the one it is rounded to. Those that are so many units
are not, as no whole number is nearer; others are below `2 ^ 52` units, and the fraction is not. -/
theorem UnitOf.nearest (h : UnitOf num den unit) (hden : 0 < den) (m : Nat) :
    |(scaledMagnitude (unit * fractions + roundHalfEven num (den * 2 ^ unit)) : ℚ) - num / den| ≤
      |(scaledMagnitude m : ℚ) - num / den| := by
  have hpos : (0 : ℚ) < 2 ^ unit := pow_pos two_pos _
  have hinUnits : ∀ k : Nat, |((k * 2 ^ unit : Nat) : ℚ) - num / den| =
      |(k : ℚ) - num / (den * 2 ^ unit : Nat)| * 2 ^ unit := by
    intro k
    rw [← abs_of_pos hpos, ← abs_mul, sub_mul, Nat.cast_mul, Nat.cast_mul,
      Nat.cast_pow, Nat.cast_ofNat, ← div_div, div_mul_cancel₀ _ hpos.ne']
  -- among whole numbers of units, the rounded one is nearest
  have hgrid : ∀ k : Nat,
      |((roundHalfEven num (den * 2 ^ unit) * 2 ^ unit : Nat) : ℚ) - num / den| ≤
        |((k * 2 ^ unit : Nat) : ℚ) - num / den| := by
    intro k
    rw [hinUnits, hinUnits]
    exact mul_le_mul_of_nonneg_right
      (roundHalfEven_nearest (Nat.mul_pos hden (Nat.two_pow_pos unit)) k) hpos.le
  rw [scaledMagnitude_units (h.rounded_le hden) (h.le_rounded hden)]
  rcases exists_units m unit with ⟨k, hunits⟩ | ⟨hnonzero, hsmall⟩
  · rw [hunits]
    exact hgrid k
  · refine (hgrid fractions).trans ?_
    have hbelow : (scaledMagnitude m : ℚ) ≤ (fractions * 2 ^ unit : Nat) := Nat.cast_le.2 hsmall
    -- off the grid there are only values below the smallest normal one of this unit
    have hleast : ((fractions * 2 ^ unit : Nat) : ℚ) ≤ num / den := by
      rw [le_div_iff₀ (Nat.cast_pos.2 hden), ← Nat.cast_mul, Nat.cast_le, Nat.mul_assoc,
        Nat.mul_comm _ den]
      exact h.fractions_le hnonzero
    rw [abs_of_nonpos (by linarith), abs_of_nonpos (by linarith)]
    linarith

/-- Rounding is monotone. -/
theorem nearestMagnitude_le (hnum : 0 < num) (hden : 0 < den) (hnum' : 0 < num')
    (hden' : 0 < den') (h : num * den' ≤ num' * den) :
    nearestMagnitude num den ≤ nearestMagnitude num' den' := by
  unfold nearestMagnitude
  generalize 1074 = scale
  refine (unitOf_guess scale rfl hnum.ne' hden.ne').magnitude_le
    (unitOf_guess scale rfl hnum'.ne' hden'.ne') hden hden' ?_
  calc num * 2 ^ scale * den' = num * den' * 2 ^ scale := Nat.mul_right_comm ..
    _ ≤ num' * den * 2 ^ scale := Nat.mul_le_mul_right _ h
    _ = num' * 2 ^ scale * den := Nat.mul_right_comm ..

/-- So no number is nearer to a fraction than the one it is rounded to. -/
theorem nearestMagnitude_nearest (hnum : 0 < num) (hden : 0 < den) (m : Nat) :
    |absolute (nearestMagnitude num den) - num / den| ≤ |absolute m - num / den| := by
  have hscaled : ∀ scale : Nat,
      (num / den : ℚ) = ((num * 2 ^ scale : Nat) : ℚ) / den * 2 ^ (-scale : ℤ) := by
    intro scale
    have hpos : (2 : ℚ) ^ scale ≠ 0 := pow_ne_zero _ two_ne_zero
    rw [zpow_neg, zpow_natCast, Nat.cast_mul, Nat.cast_pow, Nat.cast_ofNat, mul_div_right_comm,
      mul_assoc, mul_inv_cancel₀ hpos, mul_one]
  have hunit : (2 : ℚ) ^ (-1074 : ℤ) = 2 ^ (-(1074 : Nat) : ℤ) := rfl
  rw [absolute_eq, absolute_eq, hunit, hscaled 1074, ← sub_mul, ← sub_mul, abs_mul, abs_mul]
  refine mul_le_mul_of_nonneg_right ?_ (abs_nonneg _)
  unfold nearestMagnitude
  generalize 1074 = scale
  exact (unitOf_guess scale rfl hnum.ne' hden.ne').nearest hden m

end Rounded

/-! ## Numerals -/

variable {d e : Decimal} {x y : Binary64}

/-- Numerals that are taken for zero by their length are nearest to zero. -/
theorem nearestMagnitude_of_length (hdigits : d.digits ≠ 0)
    (h : d.exponent + ((Nat.toDigits 10 d.digits).length : Int) < -330) :
    nearestMagnitude d.numerator d.denominator = 0 := by
  have hbound : d.digits < 10 ^ (Nat.toDigits 10 d.digits).length :=
    (Nat.length_toDigits_le_iff (by decide) Nat.length_toDigits_pos).1 (Nat.le_refl _)
  have htiny : nearestMagnitude 1 (10 ^ 331) = 0 := by decide +kernel
  generalize hplaces : 331 = k at htiny
  generalize (Nat.toDigits 10 d.digits).length = size at h hbound
  have hbelow : ¬ 0 ≤ d.exponent := by omega
  rw [Decimal.numerator, Decimal.denominator, if_neg hbelow, if_neg hbelow]
  have hpositive : 0 < d.digits := Nat.pos_of_ne_zero hdigits
  refine Nat.le_zero.1 (htiny ▸ nearestMagnitude_le hpositive ?_ Nat.one_pos ?_ ?_)
  · exact Nat.pow_pos (by decide)
  · exact Nat.pow_pos (by decide)
  · calc d.digits * 10 ^ k ≤ 10 ^ size * 10 ^ k := Nat.mul_le_mul_right _ (Nat.le_of_lt hbound)
      _ = 10 ^ (size + k) := (Nat.pow_add ..).symm
      _ ≤ 10 ^ (-d.exponent).toNat := Nat.pow_le_pow_right (by decide) (by omega)
      _ = 1 * 10 ^ (-d.exponent).toNat := (Nat.one_mul _).symm

/-- The magnitude of the number nearest to a numeral. Numerals that are decided by their length are
no exception. -/
theorem magnitudeOf?_eq_some (h : magnitudeOf? d.digits d.exponent = some m) :
    m = if d.digits = 0 then 0 else nearestMagnitude d.numerator d.denominator := by
  unfold magnitudeOf? at h
  dsimp only at h
  split at h
  · next hzero =>
    cases h
    split
    · rfl
    · next hnonzero =>
      rw [Bool.or_eq_true, decide_eq_true_eq, decide_eq_true_eq] at hzero
      exact (nearestMagnitude_of_length hnonzero (hzero.resolve_left hnonzero)).symm
  · next hregular =>
    have hnonzero : d.digits ≠ 0 := by
      rintro hzero
      simp [hzero] at hregular
    rw [if_neg hnonzero, Decimal.numerator, Decimal.denominator]
    split at h
    · cases h
    · split at h
      · next hwhole =>
        rw [if_pos hwhole, if_pos hwhole]
        exact (Option.some.inj h).symm
      · next hfraction =>
        rw [if_neg hfraction, if_neg hfraction]
        exact (Option.some.inj h).symm

theorem ofDecimal?_eq_some (h : ofDecimal? d = some x) :
    x.negative = d.negative ∧ magnitudeOf? d.digits d.exponent = some x.magnitude := by
  unfold ofDecimal? at h
  split at h
  · next m hfound =>
    split at h
    · cases h
      exact ⟨rfl, hfound⟩
    · cases h
  · cases h

/-- No number is nearer to a numeral than the one it is read as. -/
theorem value_near_of_ofDecimal? (hx : ofDecimal? d = some x) (z : Binary64) :
    |x.value - d.value| ≤ |z.value - d.value| := by
  have hnear : |absolute x.magnitude - d.absolute| ≤ |absolute z.magnitude - d.absolute| := by
    rw [magnitudeOf?_eq_some (ofDecimal?_eq_some hx).2]
    split
    · next hzero =>
      rw [Decimal.absolute_eq_zero_iff.2 hzero, absolute_zero, sub_zero, abs_zero]
      exact abs_nonneg _
    · next hpositive =>
      rw [Decimal.absolute_eq]
      exact nearestMagnitude_nearest (Decimal.numerator_pos_iff.2 hpositive) d.denominator_pos _
  -- the number has the sign of the numeral, and without signs numbers are no farther apart
  have hsame : |x.value - d.value| = |absolute x.magnitude - d.absolute| := by
    rw [value, Decimal.value, (ofDecimal?_eq_some hx).1]
    split
    · rw [neg_sub_neg, abs_sub_comm]
    · rfl
  calc |x.value - d.value| = |absolute x.magnitude - d.absolute| := hsame
    _ ≤ |absolute z.magnitude - d.absolute| := hnear
    _ = |(|z.value| - |d.value|)| := by rw [abs_value, Decimal.abs_value]
    _ ≤ |z.value - d.value| := abs_abs_sub_abs_le_abs_sub _ _

/-- Larger absolute values are nearest to larger numbers. -/
theorem magnitude_le_of_ofDecimal? (hx : ofDecimal? d = some x) (hy : ofDecimal? e = some y)
    (h : d.absolute ≤ e.absolute) : x.magnitude ≤ y.magnitude := by
  rw [magnitudeOf?_eq_some (ofDecimal?_eq_some hx).2,
    magnitudeOf?_eq_some (ofDecimal?_eq_some hy).2]
  split
  · exact Nat.zero_le _
  · next hpositive =>
    have hcross := Decimal.absolute_le_iff.1 h
    have hdpos : 0 < d.numerator := Decimal.numerator_pos_iff.2 hpositive
    have hepos : 0 < e.numerator := by
      refine Nat.pos_of_mul_pos_right (Nat.lt_of_lt_of_le ?_ hcross)
      exact Nat.mul_pos hdpos e.denominator_pos
    rw [if_neg (Decimal.numerator_pos_iff.1 hepos)]
    exact nearestMagnitude_le hdpos d.denominator_pos hepos e.denominator_pos hcross

theorem magnitude_eq_zero (hx : ofDecimal? d = some x) (h : d.absolute = 0) : x.magnitude = 0 := by
  rw [magnitudeOf?_eq_some (ofDecimal?_eq_some hx).2, if_pos (Decimal.absolute_eq_zero_iff.1 h)]

/-- The numbers nearest to two numerals are in the order of the numerals, or equal. -/
theorem value_le_of_ofDecimal? (hx : ofDecimal? d = some x) (hy : ofDecimal? e = some y)
    (h : d.value ≤ e.value) : x.value ≤ y.value := by
  have hdzero := d.absolute_nonneg
  have hezero := e.absolute_nonneg
  have hxzero := absolute_nonneg x.magnitude
  have hyzero := absolute_nonneg y.magnitude
  rw [Decimal.value, Decimal.value] at h
  rw [value, value, (ofDecimal?_eq_some hx).1, (ofDecimal?_eq_some hy).1]
  cases hdsign : d.negative <;> cases hesign : e.negative <;>
    simp only [hdsign, hesign, if_true, if_false, Bool.false_eq_true] at h ⊢
  · exact absolute_strictMono.monotone (magnitude_le_of_ofDecimal? hx hy h)
  · -- both numerals are zero
    rw [magnitude_eq_zero hx (by linarith), magnitude_eq_zero hy (by linarith), absolute_zero,
      neg_zero]
  · exact (neg_nonpos.2 hxzero).trans hyzero
  · exact neg_le_neg (absolute_strictMono.monotone
      (magnitude_le_of_ofDecimal? hy hx (neg_le_neg_iff.1 h)))

end Binary64

end Thesaurus
