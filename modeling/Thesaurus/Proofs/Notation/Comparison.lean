import Mathlib.Data.List.DropRight
import Mathlib.Data.Nat.Find
import Thesaurus.Forest.Ranking
import Thesaurus.Proofs.Notation.Order

/-!
# Comparing notations

Dotted notations are compared as sequences of numbers that go on with zeros for ever: by the first
place at which they differ. So zeros at the end do not count, and what is longer is never smaller.
A list that is sorted by a lawful comparison can have one order only, if equal elements are to stay
in their order.

- `Notation.segmentAt`, `Notation.withoutZeros`: the number at a place of the sequence, and the
  segments up to the last that is not zero.
- `Notation.compareDotted_of_first`, `Notation.compareDotted_eq_eq_iff`: the first difference
  decides, and without any the notations are equal.
- `Notation.same_iff_withoutZeros`: sequences are equal when they are without the zeros at the end.
- `pair_sublist_sortOn`: which elements change places when a list is sorted.
- `SortsStably`, `sortsStably_iff`: what sorting does, and that nothing else does it.
- `Notation.notations_ordered`: all this as one statement about notations.
-/

namespace Thesaurus

open Std (OrientedCmp ReflCmp TransCmp)

namespace Notation

/-! ## Sequences that go on with zeros -/

/-- The number at a place of a dotted notation, which goes on with zeros. -/
def segmentAt (xs : List Nat) (i : Nat) : Nat :=
  xs.getD i 0

/-- The segments up to the last that is not zero. -/
def withoutZeros (xs : List Nat) : List Nat :=
  xs.rdropWhile (· == 0)

section Sequences

variable {xs ys : List Nat} {i : Nat}

theorem segmentAt_zero : segmentAt xs 0 = xs.headD 0 := by
  cases xs <;> rfl

theorem segmentAt_succ : segmentAt xs (i + 1) = segmentAt xs.tail i := by
  cases xs <;> rfl

/-- The first difference decides. -/
theorem compareDotted_of_first (hsame : ∀ j < i, segmentAt xs j = segmentAt ys j)
    (hdiffer : segmentAt xs i ≠ segmentAt ys i) :
    compareDotted xs ys = compare (segmentAt xs i) (segmentAt ys i) := by
  induction i generalizing xs ys with
  | zero =>
    rw [segmentAt_zero, segmentAt_zero] at hdiffer ⊢
    rw [compareDotted_eq]
    cases hfirst : compare (xs.headD 0) (ys.headD 0) with
    | lt => rfl
    | eq => exact absurd (Nat.compare_eq_eq.1 hfirst) hdiffer
    | gt => rfl
  | succ i ih =>
    have hfirst := hsame 0 (Nat.zero_lt_succ i)
    rw [segmentAt_zero, segmentAt_zero] at hfirst
    rw [segmentAt_succ, segmentAt_succ] at hdiffer ⊢
    rw [compareDotted_eq, Nat.compare_eq_eq.2 hfirst, Ordering.eq_then]
    refine ih (fun j hj => ?_) hdiffer
    rw [← segmentAt_succ, ← segmentAt_succ]
    exact hsame (j + 1) (Nat.succ_lt_succ hj)

/-- Without any difference, sequences are equal. -/
theorem compareDotted_of_same (h : ∀ i, segmentAt xs i = segmentAt ys i) :
    compareDotted xs ys = .eq := by
  induction xs, ys using segments_induct with
  | nil => rfl
  | step xs ys ih =>
    have hfirst := h 0
    rw [segmentAt_zero, segmentAt_zero] at hfirst
    rw [compareDotted_eq, Nat.compare_eq_eq.2 hfirst, Ordering.eq_then]
    refine ih fun i => ?_
    rw [← segmentAt_succ, ← segmentAt_succ]
    exact h (i + 1)

/-- Sequences that differ have a first place at which they do. -/
theorem exists_first_difference (h : ¬ ∀ i, segmentAt xs i = segmentAt ys i) :
    ∃ i, (∀ j < i, segmentAt xs j = segmentAt ys j) ∧ segmentAt xs i ≠ segmentAt ys i := by
  have hdiffer : ∃ i, segmentAt xs i ≠ segmentAt ys i := not_forall.1 h
  refine ⟨Nat.find hdiffer, fun j hj => ?_, Nat.find_spec hdiffer⟩
  exact not_not.1 (Nat.find_min hdiffer hj)

theorem compareDotted_eq_eq_iff :
    compareDotted xs ys = .eq ↔ ∀ i, segmentAt xs i = segmentAt ys i := by
  refine ⟨fun hequal => ?_, compareDotted_of_same⟩
  by_contra hdiffer
  obtain ⟨i, hsame, hhere⟩ := exists_first_difference hdiffer
  rw [compareDotted_of_first hsame hhere, Nat.compare_eq_eq] at hequal
  exact hhere hequal

/-! ## Zeros at the end -/

theorem segmentAt_concat_zero : segmentAt (xs ++ [0]) i = segmentAt xs i := by
  simp only [segmentAt, List.getD_eq_getElem?_getD, List.getElem?_append, List.getElem?_singleton]
  split
  · rfl
  · next hbeyond =>
    rw [List.getElem?_eq_none (Nat.le_of_not_lt hbeyond)]
    split <;> rfl

/-- Zeros at the end do not count. -/
theorem segmentAt_withoutZeros : segmentAt (withoutZeros xs) i = segmentAt xs i := by
  induction xs using List.reverseRecOn with
  | nil => rfl
  | append_singleton xs x ih =>
    by_cases hzero : x = 0
    · subst hzero
      rw [withoutZeros, List.rdropWhile_concat_pos _ _ _ (by rfl), segmentAt_concat_zero]
      exact ih
    · rw [withoutZeros, List.rdropWhile_concat_neg _ _ _ (by simpa using hzero)]

/-- A list without zeros at the end is no longer than any other with the same sequence. -/
theorem length_withoutZeros_le (h : ∀ i, segmentAt (withoutZeros xs) i = segmentAt ys i) :
    (withoutZeros xs).length ≤ ys.length := by
  by_contra hshorter
  have hnonempty : withoutZeros xs ≠ [] := List.ne_nil_of_length_pos (by omega)
  have hlast : segmentAt (withoutZeros xs) ((withoutZeros xs).length - 1) =
      (withoutZeros xs).getLast hnonempty := by
    rw [segmentAt, List.getD_eq_getElem?_getD, ← List.getLast?_eq_getElem?,
      List.getLast?_eq_some_getLast hnonempty]
    rfl
  have hbeyond : segmentAt ys ((withoutZeros xs).length - 1) = 0 := by
    rw [segmentAt, List.getD_eq_getElem?_getD, List.getElem?_eq_none (by omega)]
    rfl
  rw [h, hbeyond] at hlast
  exact List.rdropWhile_last_not _ _ hnonempty (beq_iff_eq.2 hlast.symm)

/-- Sequences are equal when they are without the zeros at the end. -/
theorem same_iff_withoutZeros :
    (∀ i, segmentAt xs i = segmentAt ys i) ↔ withoutZeros xs = withoutZeros ys := by
  constructor
  · intro hsame
    have htrimmed : ∀ i, segmentAt (withoutZeros xs) i = segmentAt (withoutZeros ys) i := by
      intro i
      rw [segmentAt_withoutZeros, segmentAt_withoutZeros, hsame i]
    have hlength : (withoutZeros xs).length = (withoutZeros ys).length :=
      Nat.le_antisymm (length_withoutZeros_le htrimmed)
        (length_withoutZeros_le fun i => (htrimmed i).symm)
    refine List.ext_getElem hlength fun i hx hy => ?_
    simpa [segmentAt, hx, hy] using htrimmed i
  · intro hsame i
    rw [← segmentAt_withoutZeros, hsame, segmentAt_withoutZeros]

/-- What is longer is never smaller. -/
theorem compareDotted_append_ne_gt (xs ys : List Nat) : compareDotted xs (xs ++ ys) ≠ .gt := by
  induction xs with
  | nil =>
    rw [List.nil_append, compareDotted]
    split <;> decide
  | cons x rest ih =>
    rw [List.cons_append, compareDotted, Nat.compare_eq_eq.2 rfl, Ordering.eq_then]
    exact ih

end Sequences

end Notation

/-! ## Sorting -/

section Sorting

variable {α κ : Type} {key : α → κ} {cmp : κ → κ → Ordering} {l sorted other : List α} {a : α}
  {k : κ}

/-- The elements of a list whose keys are equal to a given one. -/
def tiedWith (key : α → κ) (cmp : κ → κ → Ordering) (k : κ) (l : List α) : List α :=
  l.filter fun a => cmp (key a) k == .eq

/-- Whether a list is another one in ascending order of keys, in which elements with equal keys stay
in their order. -/
structure SortsStably (key : α → κ) (cmp : κ → κ → Ordering) (l sorted : List α) : Prop where
  perm : sorted.Perm l
  ascending : sorted.Pairwise fun a b => (cmp (key a) (key b)).isLE = true
  stable : ∀ k, tiedWith key cmp k sorted = tiedWith key cmp k l

theorem mem_tiedWith : a ∈ tiedWith key cmp k l ↔ a ∈ l ∧ cmp (key a) k = .eq := by
  rw [tiedWith, List.mem_filter, beq_iff_eq]

/-- The first of two lists has no element that the second one has not. -/
theorem mem_of_tiedWith [ReflCmp cmp] (h : ∀ k, tiedWith key cmp k l = tiedWith key cmp k other)
    (ha : a ∈ l) : a ∈ other := by
  have htied : a ∈ tiedWith key cmp (key a) l := mem_tiedWith.2 ⟨ha, ReflCmp.compare_self⟩
  rw [h] at htied
  exact (mem_tiedWith.1 htied).1

/-- The first element of a list in order is the smallest. -/
theorem head_isLE [ReflCmp cmp]
    (h : (a :: l).Pairwise fun a b => (cmp (key a) (key b)).isLE = true) {b : α}
    (hb : b ∈ a :: l) : (cmp (key a) (key b)).isLE = true := by
  rcases List.mem_cons.1 hb with rfl | hlater
  · rw [show cmp (key b) (key b) = .eq from ReflCmp.compare_self]
    rfl
  · exact (List.pairwise_cons.1 h).1 b hlater

/-- Lists in order are equal if elements with equal keys come in the same order in both. -/
theorem eq_of_ascending [TransCmp cmp]
    (hsorted : sorted.Pairwise fun a b => (cmp (key a) (key b)).isLE = true)
    (hother : other.Pairwise fun a b => (cmp (key a) (key b)).isLE = true)
    (hsame : ∀ k, tiedWith key cmp k sorted = tiedWith key cmp k other) : sorted = other := by
  have hback : ∀ k, tiedWith key cmp k other = tiedWith key cmp k sorted := fun k => (hsame k).symm
  induction sorted generalizing other with
  | nil =>
    cases other with
    | nil => rfl
    | cons b _ => exact absurd (mem_of_tiedWith hback List.mem_cons_self) List.not_mem_nil
  | cons a later ih =>
    cases other with
    | nil => exact absurd (mem_of_tiedWith hsame List.mem_cons_self) List.not_mem_nil
    | cons b rest =>
      -- both heads are smallest, so their keys are equal and they are first among those tied
      have hab := head_isLE hsorted (mem_of_tiedWith hback List.mem_cons_self)
      have hba := head_isLE hother (mem_of_tiedWith hsame List.mem_cons_self)
      have htied : cmp (key b) (key a) = .eq := OrientedCmp.isLE_antisymm hba hab
      have hself : cmp (key a) (key a) = .eq := ReflCmp.compare_self
      have hheads := hsame (key a)
      rw [tiedWith, tiedWith, List.filter_cons_of_pos (by rw [hself]; rfl),
        List.filter_cons_of_pos (by rw [htied]; rfl)] at hheads
      obtain rfl := (List.cons.inj hheads).1
      have hlaterSame : ∀ k, tiedWith key cmp k later = tiedWith key cmp k rest := by
        intro k
        have hboth := hsame k
        rw [tiedWith, tiedWith, List.filter_cons, List.filter_cons] at hboth
        split at hboth
        · exact (List.cons.inj hboth).2
        · exact hboth
      exact congrArg (a :: ·) (ih (List.pairwise_cons.1 hsorted).2 (List.pairwise_cons.1 hother).2
        hlaterSame fun k => (hlaterSame k).symm)

/-- Sorting keeps the order of elements with equal keys. -/
theorem tiedWith_sortOn [TransCmp cmp] (l : List α) (k : κ) :
    tiedWith key cmp k (sortOn key cmp l) = tiedWith key cmp k l := by
  have hlevel : (tiedWith key cmp k l).Pairwise fun a b => (cmp (key a) (key b)).isLE = true := by
    refine List.pairwise_of_forall_mem_list fun a ha b hb => Ordering.isLE_of_eq_eq ?_
    exact TransCmp.eq_trans (mem_tiedWith.1 ha).2 (OrientedCmp.eq_symm (mem_tiedWith.1 hb).2)
  have hinside : (tiedWith key cmp k l).Sublist (sortOn key cmp l) :=
    List.sublist_mergeSort (fun _ _ _ => TransCmp.isLE_trans)
      (fun a b => isLE_or_isLE (key a) (key b)) hlevel List.filter_sublist
  -- what is tied is in the sorted list in the same order, and there is no more of it
  have hagain : tiedWith key cmp k (tiedWith key cmp k l) = tiedWith key cmp k l :=
    List.filter_eq_self.2 fun a ha => (List.mem_filter.1 ha).2
  have hsublist : (tiedWith key cmp k l).Sublist (tiedWith key cmp k (sortOn key cmp l)) := by
    rw [← hagain]
    exact hinside.filter _
  exact (hsublist.eq_of_length ((sortOn_perm key cmp l).filter _).length_eq.symm).symm

/-- Two elements keep their order when a list is sorted, unless the first has the larger key. -/
theorem pair_sublist_sortOn [TransCmp cmp] {b : α} (h : [a, b].Sublist l) :
    [a, b].Sublist (sortOn key cmp l) ↔ (cmp (key a) (key b)).isLE = true := by
  constructor
  · intro hkept
    have hascending : [a, b].Pairwise fun a b => (cmp (key a) (key b)).isLE = true :=
      (sortOn_pairwise l).sublist hkept
    rwa [List.pairwise_pair] at hascending
  · intro hordered
    exact List.pair_sublist_mergeSort (fun _ _ _ => TransCmp.isLE_trans)
      (fun a b => isLE_or_isLE (key a) (key b)) hordered h

/-- Sorting sorts stably, and nothing else does. -/
theorem sortsStably_iff [TransCmp cmp] :
    SortsStably key cmp l sorted ↔ sorted = sortOn key cmp l := by
  constructor
  · intro h
    refine eq_of_ascending h.ascending (sortOn_pairwise l) fun k => ?_
    rw [h.stable, tiedWith_sortOn]
  · rintro rfl
    exact ⟨sortOn_perm key cmp l, sortOn_pairwise l, tiedWith_sortOn l⟩

end Sorting

namespace Notation

/-- Dotted notations are totally preordered. They are equal when they are without zeros at their
ends; otherwise the first difference between the sequences that go on with zeros decides, and no
notation comes after one that prolongs it. Keys that may be missing are totally preordered too,
whatever their formats, with the missing ones last. So the order that siblings get is the only one
that ascends and keeps siblings with equal keys in their order. -/
theorem notations_ordered :
    (TransCmp compareDotted ∧ ∀ xs ys : List Nat,
      (compareDotted xs ys = .eq ↔ withoutZeros xs = withoutZeros ys) ∧
      (compareDotted xs ys ≠ .eq → ∃ i, (∀ j < i, segmentAt xs j = segmentAt ys j) ∧
        segmentAt xs i ≠ segmentAt ys i ∧
        compareDotted xs ys = compare (segmentAt xs i) (segmentAt ys i)) ∧
      compareDotted xs (xs ++ ys) ≠ .gt) ∧
    (TransCmp compareOptional ∧
      ∀ key, compareOptional (some key) none = .lt ∧ compareOptional none (some key) = .gt) ∧
    ∀ (keys : List (Option Key)) (order : List Nat),
      SortsStably (fun i => keys[i]?.join) compareOptional (List.range keys.length) order ↔
        order = Ranking.orderOf keys := by
  refine ⟨⟨inferInstance, fun xs ys => ⟨?_, fun hdiffer => ?_, compareDotted_append_ne_gt xs ys⟩⟩,
    ⟨inferInstance, fun key => ⟨rfl, rfl⟩⟩, fun keys order => sortsStably_iff⟩
  · rw [compareDotted_eq_eq_iff, same_iff_withoutZeros]
  · rw [Ne, compareDotted_eq_eq_iff] at hdiffer
    obtain ⟨i, hsame, hhere⟩ := exists_first_difference hdiffer
    exact ⟨i, hsame, hhere, compareDotted_of_first hsame hhere⟩

end Notation

end Thesaurus
