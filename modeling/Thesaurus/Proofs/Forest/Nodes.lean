import Mathlib.Algebra.GroupWithZero.Nat
import Mathlib.Data.List.Nodup
import Thesaurus.Proofs.Forest.Siblings

/-!
# The nodes of a forest

Every node of a forest stands somewhere: below its ancestors, or at the top.

- `Tree.Situated`: the nodes of a list of trees, each with the values above it.
- `Tree.exists_situated`: all nodes are situated.
- `Forest.nodeCount_eq`: every node is a root or the child of one node.
- `Forest.ownedViews`: what the owned nodes show.
- `Forest.ownedViews_sortSiblings`: sorting siblings loses none of them.
-/

namespace Thesaurus

namespace Tree

variable {α : Type} {t : Tree α} {ts : List (Tree α)} {above : List α}

/-- The nodes of a list of trees, each with the values above it, the innermost first. -/
inductive Situated (ts : List (Tree α)) : List α → Tree α → Prop where
  | root {t : Tree α} (mem : t ∈ ts) : Situated ts [] t
  | child {above : List α} {t c : Tree α} (parent : Situated ts above t) (mem : c ∈ t.children) :
      Situated ts (t.value :: above) c

/-- What is situated among the children of a tree is situated in the tree. -/
theorem Situated.under {s : Tree α} (h : Situated s.children above t) (hs : s ∈ ts) :
    Situated ts (above ++ [s.value]) t := by
  induction h with
  | root hmem => exact .child (.root hs) hmem
  | child _ hmem ih => exact .child ih hmem

theorem Situated.mono {ss : List (Tree α)} (h : Situated ss above t) (hsub : ∀ s ∈ ss, s ∈ ts) :
    Situated ts above t := by
  induction h with
  | root hmem => exact .root (hsub _ hmem)
  | child _ hmem ih => exact .child ih hmem

/-- What is situated among several trees is situated among the first or among the others. -/
theorem Situated.append {ss : List (Tree α)} (h : Situated (ss ++ ts) above t) :
    Situated ss above t ∨ Situated ts above t := by
  induction h with
  | root hmem =>
    rcases List.mem_append.1 hmem with hmem | hmem
    · exact .inl (.root hmem)
    · exact .inr (.root hmem)
  | child _ hmem ih =>
    rcases ih with hparent | hparent
    · exact .inl (.child hparent hmem)
    · exact .inr (.child hparent hmem)

/-- Above a node, or at it, there is the root of one of the trees. -/
theorem Situated.outermost (h : Situated ts above t) :
    ∃ s ∈ ts, (t.value :: above).getLast? = some s.value := by
  induction h with
  | root hmem => exact ⟨_, hmem, rfl⟩
  | child _ _ ih =>
    obtain ⟨s, hs, hlast⟩ := ih
    exact ⟨s, hs, List.getLast?_cons_cons.trans hlast⟩

/-- Every node is situated. -/
theorem exists_situated (h : t ∈ walk ts) : ∃ above, Situated ts above t := by
  -- the pending trees of the listing are unrelated, so each node is situated in one of them
  have hinOne : ∃ s ∈ ts, ∃ above, Situated [s] above t := by
    fun_induction walk ts with
    | case1 => cases h
    | case2 v cs rest ih =>
      rcases List.mem_cons.1 h with rfl | h
      · exact ⟨_, List.mem_cons_self, [], .root List.mem_cons_self⟩
      · obtain ⟨s, hs, above, hsituated⟩ := ih h
        rcases List.mem_append.1 hs with hchild | hlater
        · have hinside : Situated (node v cs).children above t :=
            hsituated.mono fun s' hs' => List.mem_singleton.1 hs' ▸ hchild
          exact ⟨node v cs, List.mem_cons_self, _, hinside.under List.mem_cons_self⟩
        · exact ⟨s, List.mem_cons_of_mem _ hlater, above, hsituated⟩
  obtain ⟨s, hs, above, hsituated⟩ := hinOne
  exact ⟨above, hsituated.mono fun s' hs' => List.mem_singleton.1 hs' ▸ hs⟩

/-- The pre-order of several trees is that of each, one after the other. -/
theorem walk_append (ss ts : List (Tree α)) : walk (ss ++ ts) = walk ss ++ walk ts := by
  fun_induction walk ss with
  | case1 => rfl
  | case2 v cs rest ih => rw [List.cons_append, walk, ← List.append_assoc, ih, List.cons_append]

theorem walk_cons (t : Tree α) (ts : List (Tree α)) :
    walk (t :: ts) = t :: (walk t.children ++ walk ts) := by
  cases t with
  | node v cs => rw [walk, walk_append, children_node]

theorem mem_walk_of_mem {s : Tree α} (hs : s ∈ ts) : s ∈ walk ts := by
  induction ts with
  | nil => cases hs
  | cons t rest ih =>
    rw [walk_cons]
    rcases List.mem_cons.1 hs with rfl | hs
    · exact List.mem_cons_self
    · exact List.mem_cons_of_mem _ (List.mem_append_right _ (ih hs))

/-- The children of a node are nodes. -/
theorem mem_walk_of_child {c : Tree α} (ht : t ∈ walk ts) (hc : c ∈ t.children) : c ∈ walk ts := by
  fun_induction walk ts with
  | case1 => cases ht
  | case2 v cs rest ih =>
    rcases List.mem_cons.1 ht with rfl | ht
    · exact List.mem_cons_of_mem _ (mem_walk_of_mem (List.mem_append_left _ hc))
    · exact List.mem_cons_of_mem _ (ih ht)

/-- What is situated in some trees is among their nodes. -/
theorem Situated.mem_walk (h : Situated ts above t) : t ∈ walk ts := by
  induction h with
  | root hmem => exact mem_walk_of_mem hmem
  | child _ hmem ih => exact mem_walk_of_child ih hmem

/-- Every node is one of the trees or the child of one node. -/
theorem length_walk (ts : List (Tree α)) :
    (walk ts).length = ts.length + ((walk ts).map (·.children.length)).sum := by
  fun_induction walk ts with
  | case1 => rfl
  | case2 v cs rest ih =>
    rw [List.length_append] at ih
    simp only [List.length_cons, List.map_cons, List.sum_cons, children_node]
    omega

end Tree

namespace Forest

variable {f : Forest} {t : Tree Entry}

/-- The nodes are as many as the roots and the children of all nodes. -/
theorem nodeCount_eq (f : Forest) :
    f.nodeCount = f.length + (f.nodes.map (·.children.length)).sum :=
  Tree.length_walk f

/-! ## What is owned -/

/-- What the owned nodes show, in pre-order. -/
def ownedViews (f : Forest) : List View :=
  (f.nodes.filter (!·.value.reference)).map (·.value.view)

/-- What is owned is shown by an owned node somewhere in the forest. -/
theorem mem_ownedViews {v : View} : v ∈ ownedViews f ↔
    ∃ above t, Tree.Situated f above t ∧ t.value.reference = false ∧ t.value.view = v := by
  constructor
  · intro hv
    obtain ⟨t, ht, rfl⟩ := List.mem_map.1 hv
    obtain ⟨hmem, howned⟩ := List.mem_filter.1 ht
    obtain ⟨above, hsituated⟩ := Tree.exists_situated hmem
    exact ⟨above, t, hsituated, by simpa using howned, rfl⟩
  · rintro ⟨above, t, hsituated, howned, rfl⟩
    exact List.mem_map_of_mem (List.mem_filter.2 ⟨hsituated.mem_walk, by simp [howned]⟩)

@[simp] theorem ownedViews_nil : ownedViews [] = [] := by
  simp [ownedViews, nodes, Tree.walk]

@[simp] theorem ownedViews_append (f f' : Forest) :
    ownedViews (f ++ f') = ownedViews f ++ ownedViews f' := by
  simp [ownedViews, nodes, Tree.walk_append]

/-- A root shows what it owns, before what is below it and what is beside it. -/
theorem ownedViews_cons (t : Tree Entry) (f : Forest) : ownedViews (t :: f) =
    (if t.value.reference then [] else [t.value.view]) ++
      (ownedViews t.children ++ ownedViews f) := by
  cases hhref : t.value.reference <;> simp [ownedViews, nodes, Tree.walk_cons, hhref]

theorem ownedViews_cons_owned (h : t.value.reference = false) :
    ownedViews (t :: f) = t.value.view :: (ownedViews t.children ++ ownedViews f) := by
  rw [ownedViews_cons, h]
  rfl

/-- A reference without children owns nothing. -/
theorem ownedViews_cons_reference (h : t.value.reference = true) (hleaf : t.children = []) :
    ownedViews (t :: f) = ownedViews f := by
  rw [ownedViews_cons, h, hleaf, ownedViews_nil]
  rfl

/-- What is owned does not depend on the order of the trees. -/
theorem ownedViews_perm {f f' : Forest} (h : f.Perm f') : (ownedViews f).Perm (ownedViews f') := by
  have hsplit : ∀ f : Forest, ownedViews f = f.flatMap fun t => ownedViews [t] := by
    intro f
    induction f with
    | nil => exact ownedViews_nil
    | cons t rest ih =>
      have hfront : ownedViews (t :: rest) = ownedViews [t] ++ ownedViews rest :=
        ownedViews_append [t] rest
      rw [hfront, ih, List.flatMap_cons]
  rw [hsplit f, hsplit f']
  exact h.flatMap_right _

/-- References without children do not count. -/
theorem ownedViews_filter (h : ∀ t ∈ f, t.value.reference = true → t.children = []) :
    ownedViews (f.filter (!·.value.reference)) = ownedViews f := by
  induction f with
  | nil => rfl
  | cons t rest ih =>
    have hlater := ih fun s hs => h s (List.mem_cons_of_mem _ hs)
    by_cases hhref : t.value.reference = true
    · rw [List.filter_cons_of_neg (by simp [hhref]), hlater,
        ownedViews_cons_reference hhref (h t List.mem_cons_self hhref)]
    · have howned : t.value.reference = false := by simpa using hhref
      rw [List.filter_cons_of_pos (by simp [howned]), ownedViews_cons_owned howned,
        ownedViews_cons_owned howned, hlater]

/-- The owned roots are among the owned nodes. -/
theorem ownedRoots_sublist (f : Forest) :
    ((f.filter (!·.value.reference)).map (·.value.view)).Sublist (ownedViews f) := by
  induction f with
  | nil => simp
  | cons t rest ih =>
    have hfront : ownedViews (t :: rest) = ownedViews [t] ++ ownedViews rest :=
      ownedViews_append [t] rest
    by_cases hhref : t.value.reference = true
    · rw [List.filter_cons_of_neg (by simp [hhref]), hfront]
      exact ih.trans (List.sublist_append_right _ _)
    · have howned : t.value.reference = false := by simpa using hhref
      rw [List.filter_cons_of_pos (by simp [howned]), ownedViews_cons_owned howned, List.map_cons]
      exact (ih.trans (List.sublist_append_right _ _)).cons_cons _

/-- Sorting siblings loses nothing that is owned, if no two owned nodes show the same IRI. -/
theorem ownedViews_sortSiblings (hleaf : ∀ t ∈ f, t.value.reference = true → t.children = [])
    (hnodup : ((ownedViews f).map (·.iri)).Nodup) :
    (ownedViews (sortSiblings f)).Perm (ownedViews f) := by
  -- references may be dropped, but they own nothing
  have howned : ((f.filter (!·.value.reference)).map siblingKey).Nodup := by
    have hiris := hnodup.sublist ((ownedRoots_sublist f).map (·.iri))
    refine List.Nodup.of_map SiblingKey.iri ?_
    rw [List.map_map] at hiris ⊢
    exact hiris
  have hperm := filter_sortSiblings_perm (p := fun t : Tree Entry => !t.value.reference)
    (fun s t hsame => congrArg (fun key => !key.reference) hsame) howned
  have hsorted := ownedViews_perm hperm
  rwa [ownedViews_filter hleaf,
    ownedViews_filter fun t ht => hleaf t (mem_of_mem_sortSiblings ht)] at hsorted

end Forest

end Thesaurus
