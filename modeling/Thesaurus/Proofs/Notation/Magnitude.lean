import Mathlib.Algebra.Order.Ring.Abs
import Thesaurus.Proofs.Forest.Arrangement
import Thesaurus.Proofs.Notation.Comparison
import Thesaurus.Proofs.Number.Rounding

/-!
# Decimal notations

Keys of decimal notations are compared by their bits, which puts them in the order of their values.
The exceptions are the two zeros: they are one value, but not one key. Otherwise siblings tie when
their notations have one value, and then they stay in the order of their labels.

- `Binary64.zero`, `Binary64.OppositeZeros`: the two zeros.
- `Binary64.bits_inj`, `Binary64.compareBits_eq_bits`: a number is its 64 bits, which order it.
- `Binary64.compareBits_eq_compare`: other numbers are compared by their values.
- `Notation.parse_float_eq_ok`: what is read is the number nearest to a numeral.
- `Notation.pair_sublist_notationOrder`: which siblings change places.
- `Notation.ReadAs`: what number a notation is read as.
- `Notation.floats_compared`: all this as one statement about notations.
- `Notation.zeros_apart`: the two zeros do not tie.
-/

namespace Thesaurus

/-! ## Numbers -/

namespace Binary64

variable {x y : Binary64}

/-- Zero, with or without a minus sign. -/
def zero (negative : Bool) : Binary64 :=
  ⟨negative, 0, by decide⟩

theorem value_zero (negative : Bool) : (zero negative).value = 0 := by
  rw [value, zero, absolute_zero, neg_zero, ite_self]

theorem magnitude_lt (x : Binary64) : x.magnitude < 0x8000000000000000 :=
  x.finite.trans (by decide)

/-- Different numbers have different bits. -/
theorem bits_inj (h : x.bits = y.bits) : x = y := by
  have hx := x.magnitude_lt
  have hy := y.magnitude_lt
  obtain ⟨xnegative, xmagnitude, hxfinite⟩ := x
  obtain ⟨ynegative, ymagnitude, hyfinite⟩ := y
  simp only [bits] at h hx hy
  rw [mk.injEq]
  cases xnegative <;> cases ynegative <;> simp at h ⊢ <;> omega

/-- The place of 64 bits in the order: they are read as a number with a sign, and the bits below a
minus sign are inverted. -/
def placeOf (bits : Nat) : Int :=
  if bits < 0x8000000000000000 then bits else 0x8000000000000000 - 1 - bits

theorem placeOf_bits (x : Binary64) :
    placeOf x.bits = if x.negative then -1 - (x.magnitude : Int) else x.magnitude := by
  have hx := x.magnitude_lt
  unfold placeOf bits
  cases x.negative
  · simp [hx]
  · rw [if_pos rfl, if_neg (by omega), if_pos rfl]
    push_cast
    omega

/-- Numbers are in the order of their bits. -/
theorem compareBits_eq_bits (x y : Binary64) :
    x.compareBits y = compare (placeOf x.bits) (placeOf y.bits) := by
  have hpositive := (Nat.strictMono_cast (α := Int)).cmp_map_eq x.magnitude y.magnitude
  have hanti : StrictAnti fun m : Nat => -1 - (m : Int) := fun m n h => by
    dsimp only
    omega
  have hnegative := hanti.cmp_map_eq x.magnitude y.magnitude
  rw [cmp_eq_compare, cmp_eq_compare] at hpositive hnegative
  rw [placeOf_bits, placeOf_bits, compareBits]
  cases x.negative <;> cases y.negative
  · exact hpositive.symm
  · exact (compare_gt_iff_gt.2 (by simp; omega)).symm
  · exact (compare_lt_iff_lt.2 (by simp; omega)).symm
  · exact hnegative.symm

/-- Whether two numbers are the two zeros. -/
def OppositeZeros (x y : Binary64) : Prop :=
  x.value = 0 ∧ y.value = 0 ∧ x.negative ≠ y.negative

/-- A number with a sign is less than one without, unless both are zero. -/
theorem value_lt_of_signs (hx : x.negative = true) (hy : y.negative = false)
    (h : ¬ OppositeZeros x y) : x.value < y.value := by
  have hxneg : x.value ≤ 0 := by
    rw [value, if_pos hx]
    exact neg_nonpos.2 (absolute_nonneg _)
  have hypos : 0 ≤ y.value := by
    rw [value, hy]
    exact absolute_nonneg _
  refine lt_of_le_of_ne (hxneg.trans hypos) fun hsame => h ?_
  exact ⟨le_antisymm hxneg (hsame ▸ hypos), le_antisymm (hsame ▸ hxneg) hypos, by simp [hx, hy]⟩

/-- Numbers other than the two zeros are compared by their values. -/
theorem compareBits_eq_compare (h : ¬ OppositeZeros x y) :
    x.compareBits y = compare x.value y.value := by
  have hpositive := absolute_strictMono.cmp_map_eq x.magnitude y.magnitude
  have hnegative := absolute_strictMono.neg.cmp_map_eq x.magnitude y.magnitude
  rw [cmp_eq_compare, cmp_eq_compare] at hpositive hnegative
  cases hx : x.negative <;> cases hy : y.negative
  · rw [compareBits, value, value, hx, hy]
    exact hpositive.symm
  · have hless := value_lt_of_signs hy hx fun hzeros => h ⟨hzeros.2.1, hzeros.1, hzeros.2.2.symm⟩
    rw [compareBits, hx, hy]
    exact (compare_gt_iff_gt.2 hless).symm
  · rw [compareBits, hx, hy]
    exact (compare_lt_iff_lt.2 (value_lt_of_signs hx hy h)).symm
  · rw [compareBits, value, value, hx, hy]
    exact hnegative.symm

end Binary64

namespace Notation

open Binary64 (OppositeZeros)
open Ranking (notationOrder)

variable {text iri : String} {key : Key}

theorem parse_float_eq_ok : Format.float.parse text iri = .ok key ↔
    ∃ d x, Decimal.read? (Text.trimChars text.toList) = some d ∧
      Binary64.ofDecimal? d = some x ∧ key = .float x := by
  rw [Format.parse, Binary64.read?]
  cases Decimal.read? (Text.trimChars text.toList) with
  | none => simp
  | some d =>
    rw [Option.bind_some]
    cases hnear : Binary64.ofDecimal? d with
    | none => simp [hnear]
    | some x =>
      simp only [hnear, Except.ok.injEq, Option.some.injEq, exists_and_left, exists_eq_left']
      exact eq_comm

/-- What is read does not depend on the resource. -/
theorem parse_float_congr (h : Format.float.parse text iri = .ok key) (other : String) :
    Format.float.parse text other = .ok key :=
  parse_float_eq_ok.2 (parse_float_eq_ok.1 h)

/-! ## Siblings -/

/-- The notation of the sibling with the given index. -/
def notationAt (siblings : Forest) (i : Nat) : Option String :=
  siblings[i]?.bind (·.value.view.notationText)

section Siblings

variable {sorting : Sorting} {siblings : Forest} {indices : List Nat} {p q : Nat} {a b i j : String}
  {x y : Binary64}

theorem lt_length_of_notationAt (h : notationAt siblings p = some a) : p < siblings.length := by
  rw [notationAt, Option.bind_eq_some_iff] at h
  obtain ⟨t, hhere, _⟩ := h
  exact (List.getElem?_eq_some_iff.1 hhere).1

theorem keyOf_notationAt (hformat : sorting.format = .float) (h : notationAt siblings p = some a)
    (ha : Format.float.parse a i = .ok (.float x)) :
    (siblings.map (Ranking.keyOf sorting))[p]?.join = some (.float x) := by
  rw [notationAt, Option.bind_eq_some_iff] at h
  obtain ⟨t, hhere, hshown⟩ := h
  rw [List.getElem?_map, hhere, Option.map_some, Option.join_some, Ranking.keyOf, Ranking.readKey,
    hshown, hformat]
  simp only [parse_float_congr ha]

/-- Two indices are in their order before sorting. -/
theorem pair_sublist_range {n : Nat} (hpq : p < q) (hq : q < n) :
    [p, q].Sublist (List.range n) := by
  have hupTo : [p, q].Sublist (List.range (q + 1)) := by
    rw [List.range_succ]
    exact (List.singleton_sublist.2 (List.mem_range.2 hpq)).append (List.Sublist.refl [q])
  exact hupTo.trans (List.range_sublist.2 hq)

/-- Siblings are in the order of their numbers, and of their labels if the numbers are equal. -/
theorem pair_sublist_notationOrder (hformat : sorting.format = .float)
    (h : notationOrder sorting siblings = .ok (some indices)) (hpq : p < q)
    (hp : notationAt siblings p = some a) (hq : notationAt siblings q = some b)
    (ha : Format.float.parse a i = .ok (.float x)) (hb : Format.float.parse b j = .ok (.float y)) :
    [p, q].Sublist indices ↔ (x.compareBits y).isLE = true := by
  have hinside : q < (siblings.map (Ranking.keyOf sorting)).length := by
    rw [List.length_map]
    exact lt_length_of_notationAt hq
  rw [Ranking.eq_orderOf h, Ranking.orderOf, pair_sublist_sortOn (pair_sublist_range hpq hinside),
    keyOf_notationAt hformat hp ha, keyOf_notationAt hformat hq hb]
  rfl

end Siblings

/-- Whether a text writes a numeral between blanks, and a number is nearest to it. -/
structure ReadAs (text : String) (d : Decimal) (x : Binary64) : Prop where
  numeral : Decimal.read? (Text.trimChars text.toList) = some d
  nearest : ∀ z : Binary64, |x.value - d.value| ≤ |z.value - d.value|

/-- Decimal notations are read as the numbers nearest to their numerals, which are in the order of
the numerals or equal, and are compared as these numbers; only zeros with and without a minus sign
are left out. So siblings stay in the order of their labels just if the first does not have the
larger number. -/
theorem floats_compared {a b i j : String} {k l : Key} (ha : Format.float.parse a i = .ok k)
    (hb : Format.float.parse b j = .ok l) :
    ∃ d e x y, k = .float x ∧ l = .float y ∧ ReadAs a d x ∧ ReadAs b e y ∧
      (d.value ≤ e.value → x.value ≤ y.value) ∧ (e.value ≤ d.value → y.value ≤ x.value) ∧
      (¬ OppositeZeros x y →
        Format.float.compare a b = .ok (compare x.value y.value) ∧
        ∀ (axis : Axis) (siblings : Forest) (indices : List Nat) (p q : Nat),
          notationOrder ⟨.float, axis⟩ siblings = .ok (some indices) → p < q →
          notationAt siblings p = some a → notationAt siblings q = some b →
          ([p, q].Sublist indices ↔ x.value ≤ y.value)) := by
  obtain ⟨d, x, hreadx, hnearx, rfl⟩ := parse_float_eq_ok.1 ha
  obtain ⟨e, y, hready, hneary, rfl⟩ := parse_float_eq_ok.1 hb
  refine ⟨d, e, x, y, rfl, rfl, ⟨hreadx, Binary64.value_near_of_ofDecimal? hnearx⟩,
    ⟨hready, Binary64.value_near_of_ofDecimal? hneary⟩,
    Binary64.value_le_of_ofDecimal? hnearx hneary, Binary64.value_le_of_ofDecimal? hneary hnearx,
    fun hother => ⟨?_, ?_⟩⟩
  · rw [Format.compare, parse_float_congr ha, parse_float_congr hb]
    exact congrArg Except.ok (Binary64.compareBits_eq_compare hother)
  · intro axis siblings indices p q horder hpq hp hq
    rw [pair_sublist_notationOrder rfl horder hpq hp hq ha hb,
      Binary64.compareBits_eq_compare hother, ← Ordering.ne_gt_iff_isLE]
    exact compare_le_iff_le

/-- Two and a half. -/
def fiveHalves : Binary64 :=
  ⟨false, 0x4004000000000000, by decide⟩

/-- Two ways to write one number. -/
theorem floats_compared_spellings :
    ∃ k l, Format.float.parse " 25e-1 " "" = .ok k ∧ Format.float.parse "+2.50" "" = .ok l ∧
      ∃ d e x y, k = .float x ∧ l = .float y ∧ ReadAs " 25e-1 " d x ∧ ReadAs "+2.50" e y ∧
        (d.value ≤ e.value → x.value ≤ y.value) ∧ (e.value ≤ d.value → y.value ≤ x.value) ∧
        (¬ OppositeZeros x y →
          Format.float.compare " 25e-1 " "+2.50" = .ok (compare x.value y.value) ∧
          ∀ (axis : Axis) (siblings : Forest) (indices : List Nat) (p q : Nat),
            notationOrder ⟨.float, axis⟩ siblings = .ok (some indices) → p < q →
            notationAt siblings p = some " 25e-1 " → notationAt siblings q = some "+2.50" →
            ([p, q].Sublist indices ↔ x.value ≤ y.value)) := by
  have hfirst : Format.float.parse " 25e-1 " "" = .ok (.float fiveHalves) := by decide +kernel
  have hsecond : Format.float.parse "+2.50" "" = .ok (.float fiveHalves) := by decide +kernel
  exact ⟨_, _, hfirst, hsecond, floats_compared hfirst hsecond⟩

/-- Zero with a minus sign has the value of zero without one, but comes before it. -/
theorem zeros_apart : Format.float.parse "-0" "" = .ok (.float (Binary64.zero true)) ∧
    Format.float.parse "0" "" = .ok (.float (Binary64.zero false)) ∧
    (Binary64.zero true).value = (Binary64.zero false).value ∧
    Format.float.compare "-0" "0" = .ok .lt := by
  refine ⟨by decide +kernel, by decide +kernel, ?_, by decide +kernel⟩
  rw [Binary64.value_zero, Binary64.value_zero]

end Notation

end Thesaurus
