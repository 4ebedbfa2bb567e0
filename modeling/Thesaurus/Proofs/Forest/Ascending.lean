import Thesaurus.Proofs.Forest.Positions

/-!
# Siblings ascend

Siblings are sorted when the frame above them is closed, and a tree that is done is never touched
again. So siblings ascend strictly everywhere in a forest, whatever graph it is built from.

- `ascending_dropRepeats`: what is sorted ascends strictly when repetitions are dropped.
- `Ascending`, `ascending_sortSiblings`: sorted siblings ascend strictly.
- `mem_keys_sortSiblings`: sorting keeps the set of keys.
- `Forest.Ascends`: whether siblings ascend everywhere in a forest.
- `turn_ascends`, `grow_ascends`: a turn keeps this of all trees that are done, and so do all turns.
- `siblings_ascend`: how siblings are ordered, and that they are so in every forest.
-/

namespace Thesaurus

open Std (LawfulEqCmp TransCmp)

section Sorting

variable {α κ : Type} {key : α → κ} {cmp : κ → κ → Ordering} {l : List α}

/-- What is kept of sorted elements ascends strictly from the element before them. -/
theorem ascending_dropRepeatsAfter [TransCmp cmp] [LawfulEqCmp cmp] [DecidableEq κ] {b : α}
    (h : (b :: l).Pairwise fun a b => (cmp (key a) (key b)).isLE = true) :
    (b :: dropRepeatsAfter key (key b) l).Pairwise fun a b => cmp (key a) (key b) = .lt := by
  induction l generalizing b with
  | nil => exact List.pairwise_singleton _ b
  | cons a rest ih =>
    obtain ⟨habove, hlater⟩ := List.pairwise_cons.1 h
    unfold dropRepeatsAfter
    by_cases hsame : key a = key b
    · rw [if_pos hsame]
      exact ih (h.sublist ((List.sublist_cons_self a rest).cons_cons b))
    · rw [if_neg hsame]
      have hfirst : cmp (key b) (key a) = .lt := by
        refine (Ordering.isLE_iff_eq_lt_or_eq_eq.1 (habove a List.mem_cons_self)).resolve_right ?_
        exact fun hequal => hsame (LawfulEqCmp.eq_of_compare hequal).symm
      have hkept := ih hlater
      refine List.pairwise_cons.2 ⟨fun c hc => ?_, hkept⟩
      rcases List.mem_cons.1 hc with rfl | hc
      · exact hfirst
      · exact TransCmp.lt_trans hfirst ((List.pairwise_cons.1 hkept).1 c hc)

/-- What is sorted ascends strictly when repetitions are dropped. -/
theorem ascending_dropRepeats [TransCmp cmp] [LawfulEqCmp cmp] [DecidableEq κ]
    (h : l.Pairwise fun a b => (cmp (key a) (key b)).isLE = true) :
    (dropRepeats key l).Pairwise fun a b => cmp (key a) (key b) = .lt := by
  cases l with
  | nil => exact List.Pairwise.nil
  | cons a rest => exact ascending_dropRepeatsAfter h

end Sorting

/-! ## Lists of siblings -/

variable {siblings : List (Tree Entry)} {key : SiblingKey}

/-- Whether siblings ascend strictly by their keys. -/
def Ascending (siblings : List (Tree Entry)) : Prop :=
  siblings.Pairwise fun s t => SiblingKey.compare (siblingKey s) (siblingKey t) = .lt

/-- Sorted siblings ascend. -/
theorem ascending_sortSiblings (siblings : List (Tree Entry)) : Ascending (sortSiblings siblings) :=
  ascending_dropRepeats (sortOn_pairwise siblings)

/-- Sorting keeps the set of keys. -/
theorem mem_keys_sortSiblings :
    key ∈ (sortSiblings siblings).map siblingKey ↔ key ∈ siblings.map siblingKey := by
  constructor
  · intro h
    obtain ⟨t, ht, rfl⟩ := List.mem_map.1 h
    exact List.mem_map_of_mem (mem_of_mem_sortSiblings ht)
  · intro h
    obtain ⟨t, ht, rfl⟩ := List.mem_map.1 h
    obtain ⟨s, hs, hsame⟩ := exists_kept ht
    exact hsame ▸ List.mem_map_of_mem hs

/-! ## Forests -/

namespace Forest

/-- Whether the children of every node ascend. -/
def AscendsBelow (f : Forest) : Prop :=
  ∀ t ∈ f.nodes, Ascending t.children

/-- Whether siblings ascend everywhere, at the top and below every node. -/
structure Ascends (f : Forest) : Prop where
  roots : Ascending f
  below : f.AscendsBelow

variable {f : Forest} {t : Tree Entry}

theorem ascendsBelow_nil : AscendsBelow [] := by
  intro t ht
  rw [nodes, Tree.walk] at ht
  cases ht

theorem ascendsBelow_cons :
    AscendsBelow (t :: f) ↔ (Ascending t.children ∧ AscendsBelow t.children) ∧ AscendsBelow f := by
  simp only [AscendsBelow, nodes, Tree.walk_cons, List.mem_cons, List.mem_append]
  constructor
  · intro h
    exact ⟨⟨h t (.inl rfl), fun s hs => h s (.inr (.inl hs))⟩, fun s hs => h s (.inr (.inr hs))⟩
  · rintro ⟨⟨hhere, hbelow⟩, hbeside⟩ s (rfl | hs | hs)
    · exact hhere
    · exact hbelow s hs
    · exact hbeside s hs

/-- Trees can be looked at one by one. -/
theorem ascendsBelow_iff : AscendsBelow f ↔ ∀ t ∈ f, AscendsBelow [t] := by
  induction f with
  | nil => exact ⟨fun _ t ht => absurd ht List.not_mem_nil, fun _ => ascendsBelow_nil⟩
  | cons t rest ih =>
    have halone : AscendsBelow [t] ↔ Ascending t.children ∧ AscendsBelow t.children :=
      ascendsBelow_cons.trans (and_iff_left ascendsBelow_nil)
    rw [ascendsBelow_cons, ih, List.forall_mem_cons, halone]

theorem ascendsBelow_append {f' : Forest} :
    AscendsBelow (f ++ f') ↔ AscendsBelow f ∧ AscendsBelow f' := by
  rw [ascendsBelow_iff, ascendsBelow_iff (f := f), ascendsBelow_iff (f := f')]
  exact List.forall_mem_append

/-- Siblings ascend everywhere in trees that are sorted and in which they ascend below. -/
theorem ascends_sortSiblings (h : AscendsBelow f) : Ascends (sortSiblings f) where
  roots := ascending_sortSiblings f
  below := ascendsBelow_iff.2 fun t ht => ascendsBelow_iff.1 h t (mem_of_mem_sortSiblings ht)

theorem ascendsBelow_node {e : Entry} (h : Ascends f) : AscendsBelow [.node e f] :=
  ascendsBelow_cons.2 ⟨⟨h.roots, h.below⟩, ascendsBelow_nil⟩

end Forest

namespace Traversal

open Forest

variable {g : ResourceGraph} {contexts : OpenContexts} {top frame : Frame} {below : List Frame}
  {p later : Progress} {e : Edge} {s next : Stage} {t : Turn} {tree : Tree Entry} {trees : Forest}
  {rootIri : String} {ids : List ResourceId}

/-- Whether siblings ascend in all trees that open frames have finished. -/
def FramesAscend (frames : List Frame) : Prop :=
  ∀ f ∈ frames, AscendsBelow f.done

theorem framesAscend_cons :
    FramesAscend (top :: below) ↔ AscendsBelow top.done ∧ FramesAscend below :=
  List.forall_mem_cons

/-- Whether they do so wherever a turn leads. -/
def Turn.Ascends : Turn → Prop
  | .next s => FramesAscend s.frames
  | .finished tree _ => AscendsBelow [tree]

theorem done_of_place (hplaced : place g contexts e = .ok frame) : frame.done = [] := by
  unfold place at hplaced
  repeat' split at hplaced
  all_goals cases hplaced
  rfl

theorem leaf_of_reference {r : Resource} (hreferred : reference g contexts e = .ok (r, tree)) :
    ∃ entry, tree = .leaf entry := by
  unfold reference at hreferred
  split at hreferred
  · cases hreferred
  · cases hreferred
    exact ⟨_, rfl⟩

/-- A frame is closed over sorted children. -/
theorem Frame.close_ascends (h : AscendsBelow top.done) : AscendsBelow [top.close] := by
  have hreversed : AscendsBelow top.done.reverse :=
    ascendsBelow_iff.2 fun t ht => ascendsBelow_iff.1 h t (List.mem_reverse.1 ht)
  exact ascendsBelow_node (ascends_sortSiblings hreversed)

theorem FramesAscend.add {child : Tree Entry} (h : FramesAscend (top :: below))
    (hchild : AscendsBelow [child]) : FramesAscend (top.add child :: below) := by
  obtain ⟨hfirst, hrest⟩ := framesAscend_cons.1 h
  exact framesAscend_cons.2 ⟨ascendsBelow_append.2 ⟨hchild, hfirst⟩, hrest⟩

/-- A resource that is opened has no children yet, and a reference has none. -/
theorem follow_ascends (h : FramesAscend (top :: below))
    (hfollowed : follow g top below p e = .ok next) : FramesAscend next.frames := by
  unfold follow at hfollowed
  split at hfollowed
  · split at hfollowed
    · cases hfollowed
    · next frame hplaced =>
      cases hfollowed
      refine framesAscend_cons.2 ⟨?_, h⟩
      rw [done_of_place hplaced]
      exact ascendsBelow_nil
  · split at hfollowed
    · cases hfollowed
    · next r node hreferred =>
      cases hfollowed
      obtain ⟨entry, rfl⟩ := leaf_of_reference hreferred
      exact h.add (ascendsBelow_node ⟨List.Pairwise.nil, ascendsBelow_nil⟩)

/-- No turn touches trees that are done, and a frame that it closes is sorted. -/
theorem turn_ascends (h : FramesAscend s.frames) (hturned : turn g rootIri s = .ok t) :
    t.Ascends := by
  obtain ⟨frames, p⟩ := s
  unfold turn at hturned
  split at hturned
  · cases hturned
  · next top below hframes =>
    cases hframes
    obtain ⟨hfirst, hrest⟩ := framesAscend_cons.1 h
    split at hturned
    · next e later hpending =>
      have hleaving : FramesAscend (top.leaving later :: below) :=
        framesAscend_cons.2 ⟨hfirst, hrest⟩
      split at hturned
      · cases hturned
      · next hfollowed =>
        cases hturned
        exact follow_ascends hleaving hfollowed
    · split at hturned
      · cases hturned
        exact framesAscend_cons.2 ⟨hfirst, hrest⟩
      · split at hturned
        · cases hturned
          exact Frame.close_ascends hfirst
        · cases hturned
          exact FramesAscend.add hrest (Frame.close_ascends hfirst)

/-- So it is when the root is closed. -/
theorem run_ascends (h : FramesAscend s.frames) (hran : run g rootIri s = .ok (tree, later)) :
    AscendsBelow [tree] := by
  -- by induction on the turns, each of which keeps what holds of the frames
  fun_induction run g rootIri s with
  | case1 => cases hran
  | case2 s tree p hfinished =>
    cases hran
    exact turn_ascends h hfinished
  | case3 s next hturned ih => exact ih (turn_ascends h hturned) hran

theorem grow_ascends (hgrown : grow g e p = .ok (tree, later)) : AscendsBelow [tree] := by
  unfold grow at hgrown
  split at hgrown
  · cases hgrown
  · next frame hplaced =>
    have hopened : FramesAscend [frame] := by
      refine framesAscend_cons.2 ⟨?_, fun f hf => absurd hf List.not_mem_nil⟩
      rw [done_of_place hplaced]
      exact ascendsBelow_nil
    exact run_ascends hopened hgrown

theorem growEach_ascends (hgrown : growEach g ids p = .ok (trees, later)) : AscendsBelow trees := by
  induction ids generalizing p trees with
  | nil =>
    cases hgrown
    exact ascendsBelow_nil
  | cons id rest ih =>
    rw [growEach] at hgrown
    split at hgrown
    · split at hgrown
      · cases hgrown
      · next tree p₁ hfirst =>
        split at hgrown
        · cases hgrown
        · next others p₂ hgrownRest =>
          cases hgrown
          exact ascendsBelow_append.2 ⟨grow_ascends hfirst, ih hgrownRest⟩
    · exact ih hgrown

theorem promote_ascends (hpromoted : promote g p = .ok (trees, later)) : AscendsBelow trees := by
  fun_induction promote g p generalizing trees with
  | case1 =>
    cases hpromoted
    exact ascendsBelow_nil
  | case2 => cases hpromoted
  | case3 => cases hpromoted
  | case4 p id rest hfirst tree p₁ hgrown others last hpromotedRest ih =>
    cases hpromoted
    exact ascendsBelow_append.2 ⟨grow_ascends hgrown, ih hpromotedRest⟩

/-- Siblings ascend everywhere in a forest. -/
theorem build_ascends {built : Built} (hgrown : build g = .ok built) : built.forest.Ascends := by
  unfold build at hgrown
  split at hgrown
  · cases hgrown
  · split at hgrown
    · cases hgrown
    · next hplanned _ trees p hfirst =>
      split at hgrown
      · cases hgrown
      · next others last hpromoted =>
        cases hgrown
        exact ascends_sortSiblings
          (ascendsBelow_append.2 ⟨growEach_ascends hfirst, promote_ascends hpromoted⟩)

end Traversal

/-- The keys of siblings are totally ordered. Sorted siblings ascend strictly and have the keys they
had before; sorting them again, or in another order if their keys differ, makes no difference. In
every forest that is built siblings ascend at the top and below every node, and a forest is built of
every reachable graph. -/
theorem siblings_ascend :
    (TransCmp SiblingKey.compare ∧ ∀ a b, SiblingKey.compare a b = .eq ↔ a = b) ∧
    (∀ siblings, Ascending (sortSiblings siblings) ∧
      (∀ key, key ∈ (sortSiblings siblings).map siblingKey ↔ key ∈ siblings.map siblingKey) ∧
      sortSiblings (sortSiblings siblings) = sortSiblings siblings) ∧
    (∀ siblings siblings', siblings'.Perm siblings → (siblings.map siblingKey).Nodup →
      sortSiblings siblings' = sortSiblings siblings) ∧
    (∀ g built, Traversal.build g = .ok built → built.forest.Ascends) ∧
    ∀ g, Reachable g → ∃ built, Traversal.build g = .ok built := by
  refine ⟨⟨inferInstance, fun a b => LawfulEqCmp.compare_eq_iff_eq⟩, fun siblings => ?_,
    fun _ _ => sortSiblings_eq_of_perm, fun _ _ => Traversal.build_ascends, fun g hg => ?_⟩
  · have hascending := ascending_sortSiblings siblings
    exact ⟨hascending, fun _ => mem_keys_sortSiblings, sortSiblings_eq_self hascending⟩
  · obtain ⟨built, hgrown, _⟩ := Traversal.exists_build hg.sound
    exact ⟨built, hgrown⟩

end Thesaurus
