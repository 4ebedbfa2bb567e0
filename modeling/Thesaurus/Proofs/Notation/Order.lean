import Thesaurus.Notation.Key
import Thesaurus.Proofs.Forest.SiblingOrder

/-!
# The order of notations

Keys of notations are compared lawfully, whatever they hold: dotted ones as if both went on with
zeros, decimal ones by where they lie on the line of numbers. So siblings that are in the order of
their notations stay in that order when they are sorted again.

- `Notation.compareDotted_eq`: the first segments decide, unless they are equal.
- `Notation.segments_induct`: induction over two notations, segment by segment.
- `Binary64.compareBits_eq`: numbers are compared by their places on a line.
- `Notation.compareDotted`, `Binary64.compareBits`, `Notation.Key.compare`,
  `Notation.compareOptional`: instances that make them lawful comparisons.
- `sortOn_sortOn`: what is sorted is not sorted further.
-/

namespace Thesaurus

open Std (OrientedCmp TransCmp)

/-! ## Numbers -/

namespace Binary64

/-- The place of a number on a line on which a negative zero is just before a positive one. -/
def place (x : Binary64) : Int :=
  if x.negative then -(x.magnitude : Int) - 1 else x.magnitude

theorem compareBits_eq (x y : Binary64) : x.compareBits y = compare x.place y.place := by
  unfold compareBits place
  rw [Int.compare_eq_ite_lt]
  cases x.negative <;> cases y.negative <;> simp only [Nat.compare_eq_ite_lt] <;>
    split_ifs <;> first | rfl | omega

instance : TransCmp compareBits := by
  have hplace : TransCmp fun x y : Binary64 => compare x.place y.place := transCmp_by place
  exact (funext₂ compareBits_eq) ▸ hplace

end Binary64

/-! ## Dotted notations -/

namespace Notation

/-- The first segments decide, unless they are equal. A segment that is missing counts as zero. -/
theorem compareDotted_eq (xs ys : List Nat) : compareDotted xs ys =
    (compare (xs.headD 0) (ys.headD 0)).then (compareDotted xs.tail ys.tail) := by
  cases xs with
  | nil =>
    cases ys with
    | nil => rfl
    | cons y ys =>
      by_cases hzero : y = 0
      · simp [compareDotted, hzero]
      · have hless : compare 0 y = .lt := Nat.compare_eq_lt.2 (Nat.pos_of_ne_zero hzero)
        simp [compareDotted, hzero, hless]
  | cons x xs =>
    cases ys with
    | nil =>
      by_cases hzero : x = 0
      · cases xs <;> simp [compareDotted, hzero]
      · have hgreater : compare x 0 = .gt := Nat.compare_eq_gt.2 (Nat.pos_of_ne_zero hzero)
        simp [compareDotted, hzero, hgreater]
    | cons y ys => rfl

/-- Two dotted notations are taken apart segment by segment, until both are at their ends. -/
theorem segments_induct {motive : List Nat → List Nat → Prop} (nil : motive [] [])
    (step : ∀ xs ys, motive xs.tail ys.tail → motive xs ys) (xs ys : List Nat) : motive xs ys := by
  induction xs generalizing ys with
  | nil =>
    induction ys with
    | nil => exact nil
    | cons y rest ih => exact step [] (y :: rest) ih
  | cons x rest ih => exact step (x :: rest) ys (ih ys.tail)

instance : TransCmp compareDotted where
  eq_swap {xs ys} := by
    induction xs, ys using segments_induct with
    | nil => rfl
    | step xs ys ih =>
      have hfirst : compare (xs.headD 0) (ys.headD 0) = (compare (ys.headD 0) (xs.headD 0)).swap :=
        OrientedCmp.eq_swap
      rw [compareDotted_eq xs ys, compareDotted_eq ys xs, Ordering.swap_then, ← ih, ← hfirst]
  isLE_trans {xs ys zs} := by
    induction xs, ys using segments_induct generalizing zs with
    | nil => exact fun _ h => h
    | step xs ys ih =>
      rw [compareDotted_eq xs ys, compareDotted_eq ys zs, compareDotted_eq xs zs,
        Ordering.isLE_then_iff_or, Ordering.isLE_then_iff_or, Ordering.isLE_then_iff_or,
        Nat.compare_eq_lt, Nat.compare_eq_lt, Nat.compare_eq_lt, Nat.compare_eq_eq,
        Nat.compare_eq_eq, Nat.compare_eq_eq]
      rintro (hxy | ⟨hxy, hfirst⟩) (hyz | ⟨hyz, hsecond⟩)
      · exact .inl (Nat.lt_trans hxy hyz)
      · exact .inl (hyz ▸ hxy)
      · exact .inl (hxy ▸ hyz)
      · exact .inr ⟨hxy.trans hyz, ih hfirst hsecond⟩

/-! ## Keys -/

/-- Keys of different formats are in the order of the formats. -/
theorem Key.rank_le_of_isLE {a b : Key} (h : (a.compare b).isLE = true) : a.rank ≤ b.rank := by
  cases a <;> cases b <;> first
    | (simp [Key.rank]; done)
    | simp [Key.compare, Key.rank, Nat.compare_eq_ite_lt] at h

instance : TransCmp Key.compare where
  eq_swap {a b} := by
    cases a <;> cases b <;> first | rfl | skip
    · next a b => exact (show Ord.compare a b = (Ord.compare b a).swap from OrientedCmp.eq_swap)
    · next a b => exact (show compareDotted a b = (compareDotted b a).swap from OrientedCmp.eq_swap)
    · next a b => exact (show a.compareBits b = (b.compareBits a).swap from OrientedCmp.eq_swap)
  isLE_trans {a b c} hab hbc := by
    have hab' := Key.rank_le_of_isLE hab
    have hbc' := Key.rank_le_of_isLE hbc
    -- formats do not descend, so that the outer keys decide unless all three are of one format
    cases a <;> cases b <;> cases c <;> simp only [Key.rank] at hab' hbc' <;>
      first | omega | rfl | skip
    · next a b c =>
      exact (show (Ord.compare a c).isLE = true from TransCmp.isLE_trans (b := b) hab hbc)
    · next a b c =>
      exact (show (compareDotted a c).isLE = true from TransCmp.isLE_trans (b := b) hab hbc)
    · next a b c =>
      exact (show (a.compareBits c).isLE = true from TransCmp.isLE_trans (b := b) hab hbc)

instance : TransCmp compareOptional :=
  inferInstanceAs (TransCmp (absentLast Key.compare))

end Notation

/-- What is sorted is not sorted further. -/
theorem sortOn_sortOn {α κ : Type} {key : α → κ} {cmp : κ → κ → Ordering} [TransCmp cmp]
    (l : List α) : sortOn key cmp (sortOn key cmp l) = sortOn key cmp l :=
  List.mergeSort_of_pairwise (sortOn_pairwise l)

end Thesaurus
