import Mathlib.Data.List.Nodup
import Thesaurus.Proofs.Forest.Siblings

/-!
# The order of siblings is total

The keys of siblings are totally ordered, so that sorting leaves no choice: siblings with different
keys have one order, in whatever order they were found.

- `absentLast`, `SiblingKey.compare`: instances that make them lawful comparisons.
- `sortOn_eq_of_perm`: sorting does not depend on the order before, where equal elements are the
  only ones with equal keys.
- `sortOn_map`: elements are sorted alike when they are renamed.
- `sortSiblings_eq_of_perm`: siblings with different keys have one order.
-/

namespace Thesaurus

open Std (LawfulEqCmp OrientedCmp ReflCmp TransCmp)

section Comparisons

variable {α β : Type} {cmp : α → α → Ordering}

/-! ## Lawful comparisons -/

instance [OrientedCmp cmp] : OrientedCmp (absentLast cmp) where
  eq_swap {a b} := by
    cases a <;> cases b <;> first | rfl | skip
    next a b => exact (show cmp a b = (cmp b a).swap from OrientedCmp.eq_swap)

instance [TransCmp cmp] : TransCmp (absentLast cmp) where
  isLE_trans {a b c} hab hbc := by
    cases a <;> cases b <;> cases c <;> first | rfl | contradiction | skip
    next a b c => exact (show (cmp a c).isLE = true from TransCmp.isLE_trans hab hbc)

instance [LawfulEqCmp cmp] : LawfulEqCmp (absentLast cmp) where
  compare_self {a} := by
    cases a with
    | none => rfl
    | some a => exact (show cmp a a = .eq from ReflCmp.compare_self)
  eq_of_compare {a b} h := by
    cases a <;> cases b <;> first | rfl | cases h | skip
    next a b =>
      have hequal : cmp a b = .eq := h
      exact congrArg some (LawfulEqCmp.eq_of_compare hequal)

/-- What is compared by a part of it is compared lawfully. -/
theorem transCmp_by (f : β → α) [TransCmp cmp] : TransCmp fun a b => cmp (f a) (f b) where
  eq_swap := OrientedCmp.eq_swap
  isLE_trans := TransCmp.isLE_trans

end Comparisons

namespace SiblingKey

theorem compare_eq_lex : SiblingKey.compare =
    compareLex (fun a b => absentLast Ord.compare a.position b.position)
      (compareLex (fun a b => Ord.compare a.category b.category)
        (compareLex (fun a b => Ord.compare b.top a.top)
          (compareLex (fun a b => absentLast Ord.compare a.label b.label)
            (compareLex (fun a b => Ord.compare a.iri b.iri)
              fun a b => Ord.compare a.reference b.reference)))) :=
  rfl

instance : TransCmp SiblingKey.compare := by
  rw [compare_eq_lex]
  have hposition : TransCmp fun a b : SiblingKey => absentLast Ord.compare a.position b.position :=
    transCmp_by position
  have hcategory : TransCmp fun a b : SiblingKey => Ord.compare a.category b.category :=
    transCmp_by category
  have htop : TransCmp fun a b : SiblingKey => Ord.compare a.top b.top := transCmp_by top
  have htopFirst : TransCmp fun a b : SiblingKey => Ord.compare b.top a.top := TransCmp.opposite
  have hlabel : TransCmp fun a b : SiblingKey => absentLast Ord.compare a.label b.label :=
    transCmp_by label
  have hiri : TransCmp fun a b : SiblingKey => Ord.compare a.iri b.iri := transCmp_by iri
  have hreference : TransCmp fun a b : SiblingKey => Ord.compare a.reference b.reference :=
    transCmp_by reference
  infer_instance

instance : LawfulEqCmp SiblingKey.compare where
  compare_self := ReflCmp.compare_self
  eq_of_compare {a b} h := by
    simp only [SiblingKey.compare, Ordering.then_eq_eq, LawfulEqCmp.compare_eq_iff_eq] at h
    obtain ⟨hposition, hcategory, htop, hlabel, hiri, hreference⟩ := h
    cases a
    cases b
    simp_all

end SiblingKey

/-! ## Sorting -/

section Sorting

variable {α β κ : Type} {key : α → κ} {cmp : κ → κ → Ordering} {l l' : List α}

/-- Of two keys one is at most the other. -/
theorem isLE_or_isLE [OrientedCmp cmp] (a b : κ) : ((cmp a b).isLE || (cmp b a).isLE) = true := by
  rw [Bool.or_eq_true]
  by_cases hle : (cmp a b).isLE = true
  · exact .inl hle
  · exact .inr (Ordering.isLE_of_eq_lt (OrientedCmp.lt_of_not_isLE hle))

theorem sortOn_pairwise [TransCmp cmp] (l : List α) :
    (sortOn key cmp l).Pairwise fun a b => (cmp (key a) (key b)).isLE = true :=
  List.pairwise_mergeSort (fun _ _ _ => TransCmp.isLE_trans)
    (fun a b => isLE_or_isLE (key a) (key b)) l

/-- What is sorted does not depend on the order before, where equal elements are the only ones with
equal keys. -/
theorem sortOn_eq_of_perm [TransCmp cmp] [LawfulEqCmp cmp] (hperm : l'.Perm l)
    (hkey : ∀ a ∈ l, ∀ b ∈ l, key a = key b → a = b) : sortOn key cmp l' = sortOn key cmp l := by
  refine List.Perm.eq_of_pairwise (fun a b ha hb hab hba => ?_) (sortOn_pairwise l')
    (sortOn_pairwise l) ((sortOn_perm ..).trans (hperm.trans (sortOn_perm ..).symm))
  have hinFirst : a ∈ l := hperm.mem_iff.1 ((sortOn_perm ..).mem_iff.1 ha)
  have hinSecond : b ∈ l := (sortOn_perm ..).mem_iff.1 hb
  exact hkey a hinFirst b hinSecond
    (LawfulEqCmp.eq_of_compare (OrientedCmp.isLE_antisymm hab hba))

/-- Elements are sorted alike when they are renamed and keep their keys. -/
theorem sortOn_map {key' : β → κ} {f : α → β} (hkey : ∀ a ∈ l, key' (f a) = key a) :
    sortOn key' cmp (l.map f) = (sortOn key cmp l).map f := by
  refine (List.map_mergeSort fun a ha b hb => ?_).symm
  rw [hkey a ha, hkey b hb]

theorem sortOn_congr {key' : α → κ} (hkey : ∀ a ∈ l, key' a = key a) :
    sortOn key' cmp l = sortOn key cmp l := by
  have hsorted : sortOn key' cmp (l.map id) = (sortOn key cmp l).map id := sortOn_map hkey
  rwa [List.map_id, List.map_id] at hsorted

end Sorting

/-- Siblings with different keys have one order. -/
theorem sortSiblings_eq_of_perm {siblings siblings' : List (Tree Entry)}
    (hperm : siblings'.Perm siblings) (hnodup : (siblings.map siblingKey).Nodup) :
    sortSiblings siblings' = sortSiblings siblings := by
  have hsorted : sortOn siblingKey SiblingKey.compare siblings' =
      sortOn siblingKey SiblingKey.compare siblings :=
    sortOn_eq_of_perm hperm fun a ha b hb hsame => List.inj_on_of_nodup_map hnodup ha hb hsame
  rw [sortSiblings, sortSiblings, hsorted]

end Thesaurus
