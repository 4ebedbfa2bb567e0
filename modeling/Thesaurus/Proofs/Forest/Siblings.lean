import Mathlib.Data.List.Perm.Basic
import Thesaurus.Forest.Siblings

/-!
# What sorting siblings keeps

Sorting drops a sibling only if one with the same key stays.

- `sortOn_perm`: sorting by a key loses nothing.
- `mem_of_mem_sortSiblings`: sorted siblings were siblings before.
- `sortSiblings_perm`: siblings with different keys all stay.
- `filter_sortSiblings_perm`: so do those of one sort that have different keys among each other.
-/

namespace Thesaurus

theorem sortOn_perm {α κ : Type} (key : α → κ) (cmp : κ → κ → Ordering) (l : List α) :
    (sortOn key cmp l).Perm l :=
  List.mergeSort_perm ..

variable {α κ : Type} [DecidableEq κ] {key : α → κ}

theorem dropRepeatsAfter_sublist (last : κ) (l : List α) :
    (dropRepeatsAfter key last l).Sublist l := by
  induction l generalizing last with
  | nil => exact List.Sublist.refl _
  | cons a rest ih =>
    unfold dropRepeatsAfter
    split
    · exact (ih last).cons a
    · exact (ih (key a)).cons_cons a

theorem dropRepeats_sublist (l : List α) : (dropRepeats key l).Sublist l := by
  cases l with
  | nil => exact List.Sublist.refl _
  | cons a rest => exact (dropRepeatsAfter_sublist (key a) rest).cons_cons a

/-- What is dropped repeats the key of an element before it, so nothing of a sort without
repetitions is dropped. -/
theorem filter_dropRepeatsAfter {p : α → Bool} (hp : ∀ a b, key a = key b → p a = p b) {b : α}
    {l : List α} (h : (((b :: l).filter p).map key).Nodup) :
    (dropRepeatsAfter key (key b) l).filter p = l.filter p := by
  -- by induction on the list, with the element that was kept last
  induction l generalizing b with
  | nil => rfl
  | cons a rest ih =>
    have hlater : ((rest.filter p).map key).Nodup ∧ (((a :: rest).filter p).map key).Nodup ∧
        (((b :: rest).filter p).map key).Nodup := by
      have htail : (rest.filter p).Sublist ((b :: a :: rest).filter p) :=
        ((List.sublist_cons_self a rest).trans (List.sublist_cons_self b _)).filter p
      have hfront : ((a :: rest).filter p).Sublist ((b :: a :: rest).filter p) :=
        (List.sublist_cons_self b _).filter p
      have hskip : ((b :: rest).filter p).Sublist ((b :: a :: rest).filter p) :=
        ((List.sublist_cons_self a rest).cons_cons b).filter p
      exact ⟨h.sublist (htail.map key), h.sublist (hfront.map key), h.sublist (hskip.map key)⟩
    unfold dropRepeatsAfter
    by_cases hsame : key a = key b
    · rw [if_pos hsame, ih hlater.2.2]
      by_cases ha : p a = true
      · -- the dropped element and the one before it would both count
        have hb : p b = true := by rw [← hp a b hsame, ha]
        rw [List.filter_cons_of_pos hb, List.filter_cons_of_pos ha] at h
        simp [hsame] at h
      · rw [List.filter_cons_of_neg ha]
    · rw [if_neg hsame]
      by_cases ha : p a = true
      · rw [List.filter_cons_of_pos ha, List.filter_cons_of_pos ha, ih hlater.2.1]
      · rw [List.filter_cons_of_neg ha, List.filter_cons_of_neg ha, ih hlater.2.1]

theorem filter_dropRepeats {p : α → Bool} (hp : ∀ a b, key a = key b → p a = p b) {l : List α}
    (h : ((l.filter p).map key).Nodup) : (dropRepeats key l).filter p = l.filter p := by
  cases l with
  | nil => rfl
  | cons a rest =>
    have hkept := filter_dropRepeatsAfter hp h
    unfold dropRepeats
    by_cases ha : p a = true
    · rw [List.filter_cons_of_pos ha, List.filter_cons_of_pos ha, hkept]
    · rw [List.filter_cons_of_neg ha, List.filter_cons_of_neg ha, hkept]

/-! ## Siblings -/

theorem mem_of_mem_sortSiblings {siblings : List (Tree Entry)} {t : Tree Entry}
    (h : t ∈ sortSiblings siblings) : t ∈ siblings :=
  (sortOn_perm ..).mem_iff.1 ((dropRepeats_sublist _).subset h)

/-- Siblings of one sort all stay if no two of them have the same key. -/
theorem filter_sortSiblings_perm {siblings : List (Tree Entry)} {p : Tree Entry → Bool}
    (hp : ∀ s t, siblingKey s = siblingKey t → p s = p t)
    (h : ((siblings.filter p).map siblingKey).Nodup) :
    ((sortSiblings siblings).filter p).Perm (siblings.filter p) := by
  have hsorted : ((sortOn siblingKey SiblingKey.compare siblings).filter p).Perm
      (siblings.filter p) := (sortOn_perm ..).filter p
  rw [sortSiblings, filter_dropRepeats hp ((hsorted.map siblingKey).nodup_iff.2 h)]
  exact hsorted

/-- Siblings all stay if no two of them have the same key. -/
theorem sortSiblings_perm {siblings : List (Tree Entry)} (h : (siblings.map siblingKey).Nodup) :
    (sortSiblings siblings).Perm siblings := by
  have heverything : ((siblings.filter fun _ => true).map siblingKey).Nodup := by simpa using h
  have hperm := filter_sortSiblings_perm (fun _ _ _ => rfl) heverything
  simpa using hperm

end Thesaurus
