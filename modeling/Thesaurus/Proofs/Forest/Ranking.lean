import Thesaurus.Proofs.Forest.Arrangement

/-!
# Ranking keeps the nodes

Ranking by notation moves siblings and marks them. Which resources are shown below which others, how
they are shown, and which of them are owned, does not change.

- `Alike`: forests that differ in the order of siblings and in marks only.
- `Alike.ownedViews_perm`, `Alike.leafReferences`: what such forests have in common.
- `Ranking.ranked_alike`: a ranked forest is like the forest before.
- `Ranking.Ranks`: what ranking does to a node.
- `Ranking.sorting_recursive`: ranking fails on what cannot be read, and ranks every other forest.
-/

namespace Thesaurus

/-- What a node shows besides the marks of ranking. -/
def Entry.unmarked (e : Entry) : Entry :=
  { e with sortByNotation := false, notationRank := none }

/-- Forests that differ in the order of siblings and in marks only. -/
inductive Alike : Forest → Forest → Prop where
  | nil : Alike [] []
  | cons {e e' : Entry} {children children' f f' : Forest} (entry : e.unmarked = e'.unmarked)
      (below : Alike children children') (rest : Alike f f') :
      Alike (.node e children :: f) (.node e' children' :: f')
  | perm {f f' : Forest} (perm : f.Perm f') : Alike f f'
  | trans {f f' f'' : Forest} (first : Alike f f') (second : Alike f' f'') : Alike f f''

/-- Whether all references are without children. -/
def Forest.LeafReferences (f : Forest) : Prop :=
  ∀ t ∈ f.nodes, t.value.reference = true → t.children = []

namespace Alike

variable {f f' : Forest}

theorem refl (f : Forest) : Alike f f :=
  .perm (List.Perm.refl f)

theorem symm (h : Alike f f') : Alike f' f := by
  induction h with
  | nil => exact .nil
  | cons hentry _ _ hbelow hrest => exact .cons hentry.symm hbelow hrest
  | perm hperm => exact .perm hperm.symm
  | trans _ _ ih ih' => exact .trans ih' ih

theorem length_eq (h : Alike f f') : f.length = f'.length := by
  induction h with
  | nil => rfl
  | cons _ _ _ _ ih => rw [List.length_cons, List.length_cons, ih]
  | perm hperm => exact hperm.length_eq
  | trans _ _ ih ih' => exact ih.trans ih'

/-- Alike forests own the same. -/
theorem ownedViews_perm (h : Alike f f') :
    (Forest.ownedViews f).Perm (Forest.ownedViews f') := by
  induction h with
  | nil => exact List.Perm.refl _
  | @cons e e' children children' f f' hentry _ _ hbelow hrest =>
    have hview : e.view = e'.view := congrArg (·.view) hentry
    have hreference : e.reference = e'.reference := congrArg (·.reference) hentry
    rw [Forest.ownedViews_cons, Forest.ownedViews_cons]
    simp only [Tree.value_node, Tree.children_node, hview, hreference]
    exact (hbelow.append hrest).append_left _
  | perm hperm => exact Forest.ownedViews_perm hperm
  | trans _ _ ih ih' => exact ih.trans ih'

end Alike

namespace Forest

variable {f f' : Forest} {t : Tree Entry}

theorem leafReferences_cons : LeafReferences (t :: f) ↔
    (t.value.reference = true → t.children = []) ∧ LeafReferences t.children ∧
      LeafReferences f := by
  unfold LeafReferences nodes
  rw [Tree.walk_cons]
  simp only [List.forall_mem_cons, List.forall_mem_append]

theorem leafReferences_iff : LeafReferences f ↔ ∀ t ∈ f, LeafReferences [t] := by
  induction f with
  | nil => simp [LeafReferences, nodes, Tree.walk]
  | cons t rest ih =>
    have hnone : LeafReferences [] := by simp [LeafReferences, nodes, Tree.walk]
    rw [List.forall_mem_cons, leafReferences_cons, leafReferences_cons, ih]
    simp only [hnone, and_true, and_assoc]

end Forest

/-- A forest like one whose references have no children is another such forest. -/
theorem Alike.leafReferences {f f' : Forest} (h : Alike f f') (hleaf : f'.LeafReferences) :
    f.LeafReferences := by
  induction h with
  | nil => exact hleaf
  | @cons e e' children children' f f' hentry hbelow _ hbelowLeaf hrestLeaf =>
    have hreference : e.reference = e'.reference := congrArg (·.reference) hentry
    obtain ⟨hrootLeaf, hchildrenLeaf, hothersLeaf⟩ := Forest.leafReferences_cons.1 hleaf
    refine Forest.leafReferences_cons.2
      ⟨fun hhref => ?_, hbelowLeaf hchildrenLeaf, hrestLeaf hothersLeaf⟩
    -- a root without children is like such roots only
    have hnone : children' = [] := hrootLeaf (hreference ▸ hhref)
    rw [hnone] at hbelow
    exact List.length_eq_zero_iff.1 hbelow.length_eq
  | perm hperm =>
    rw [Forest.leafReferences_iff] at hleaf ⊢
    exact fun t ht => hleaf t (hperm.mem_iff.1 ht)
  | trans _ _ ih ih' => exact ih (ih' hleaf)

/-! ## Ranked forests -/

namespace Ranking

open Notation (Sorting)

/-- Marking roots, each depending on its place, makes a forest that is like the one before. -/
theorem mapRoot_alike (change : Nat → Entry → Entry)
    (hunmarked : ∀ i e, (change i e).unmarked = e.unmarked) (first : Nat) (f : Forest) :
    Alike ((f.zipIdx first).map fun (t, i) => mapRoot (change i) t) f := by
  induction f generalizing first with
  | nil => exact .nil
  | cons t rest ih =>
    cases t with
    | node e children => exact .cons (hunmarked _ e) (.refl _) (ih (first + 1))

/-- Marking all roots in the same way makes a forest that is like the one before. -/
theorem map_mapRoot_alike (change : Entry → Entry)
    (hunmarked : ∀ e, (change e).unmarked = e.unmarked) (f : Forest) :
    Alike (f.map (mapRoot change)) f := by
  induction f with
  | nil => exact .nil
  | cons t rest ih =>
    cases t with
    | node e children => exact .cons (hunmarked e) (.refl _) ih

theorem arrange_alike (sorting : Sorting) (siblings : Forest) :
    Alike (arrange sorting siblings) siblings := by
  have hmoved : Alike (byNotation sorting siblings) siblings := .perm (sortOn_perm ..)
  unfold arrange
  split
  · exact map_mapRoot_alike inNotationOrder (fun _ => rfl) siblings
  · exact .trans (map_mapRoot_alike inNotationOrder (fun _ => rfl) _) hmoved
  · exact map_mapRoot_alike (inLabelOrder none) (fun _ => rfl) siblings
  · exact mapRoot_alike (fun i => inLabelOrder ((rankOrder sorting siblings).idxOf? i))
      (fun _ _ => rfl) 0 siblings

/-- Arranging everything below several trees makes a forest that is like them. -/
theorem arrangeBelowEach_alike (sorting : Sorting) (f : Forest) :
    Alike (arrangeBelowEach sorting f) f := by
  -- one tree in front of others, by induction over the tree
  have hinFront : ∀ t : Tree Entry, ∀ rest rest' : Forest, Alike rest rest' →
      Alike (arrangeBelow sorting t :: rest) (t :: rest') := by
    intro t
    induction t using Tree.induct with
    | node e children ih =>
      intro rest rest' hrest
      have heach : Alike (arrangeBelowEach sorting children) children := by
        induction children with
        | nil => exact .nil
        | cons c cs heach =>
          refine ih c List.mem_cons_self _ _ (heach ?_)
          exact fun d hd => ih d (List.mem_cons_of_mem _ hd)
      exact .cons rfl (.trans (arrange_alike sorting _) heach) hrest
  induction f with
  | nil => exact .nil
  | cons t rest ih => exact hinFront t _ _ ih

/-- A ranked forest is like the forest before. -/
theorem ranked_alike (sorting : Sorting) (f : Forest) : Alike (ranked sorting f) f :=
  .trans (arrange_alike sorting _) (arrangeBelowEach_alike sorting f)

/-! ## Nodes of ranked forests -/

variable {sorting : Sorting} {siblings f : Forest} {s t : Tree Entry}

/-- What a node of a ranked forest has in common with the node before. It shows the same up to
marks, and is marked if siblings are in the order of their notations. -/
structure Ranks (sorting : Sorting) (t s : Tree Entry) : Prop where
  unmarked : t.value.unmarked = s.value.unmarked
  marked : t.value.sortByNotation = decide (sorting.axis = .byNotation)
  children : t.children = ranked sorting s.children

theorem Ranks.view (h : Ranks sorting t s) : t.value.view = s.value.view :=
  congrArg (·.view) h.unmarked

theorem Ranks.reference (h : Ranks sorting t s) : t.value.reference = s.value.reference :=
  congrArg (·.reference) h.unmarked

theorem Ranks.position (h : Ranks sorting t s) : t.value.position = s.value.position :=
  congrArg (·.position) h.unmarked

/-- Arranging siblings only marks and moves them. -/
theorem exists_of_mem_arrange (h : t ∈ arrange sorting siblings) :
    ∃ s ∈ siblings, t.value.unmarked = s.value.unmarked ∧
      t.value.sortByNotation = decide (sorting.axis = .byNotation) ∧ t.children = s.children := by
  unfold arrange at h
  split at h
  · next haxis _ =>
    obtain ⟨s, hs, rfl⟩ := List.mem_map.1 h
    exact ⟨s, hs, rfl, by rw [haxis]; rfl, rfl⟩
  · next haxis _ =>
    obtain ⟨s, hs, rfl⟩ := List.mem_map.1 h
    exact ⟨s, (sortOn_perm ..).mem_iff.1 hs, rfl, by rw [haxis]; rfl, rfl⟩
  · next haxis _ =>
    obtain ⟨s, hs, rfl⟩ := List.mem_map.1 h
    exact ⟨s, hs, rfl, by rw [haxis]; rfl, rfl⟩
  · next haxis _ =>
    obtain ⟨⟨s, i⟩, hs, rfl⟩ := List.mem_map.1 h
    exact ⟨s, List.fst_mem_of_mem_zipIdx hs, rfl, by rw [haxis]; rfl, rfl⟩

theorem exists_of_mem_ranked (h : t ∈ ranked sorting f) : ∃ s ∈ f, Ranks sorting t s := by
  rw [ranked_eq] at h
  obtain ⟨arranged, hmem, rfl⟩ := List.mem_map.1 h
  obtain ⟨s, hs, hunmarked, hmarked, hchildren⟩ := exists_of_mem_arrange hmem
  exact ⟨s, hs, hunmarked, hmarked, congrArg (ranked sorting) hchildren⟩

/-- Every node of a ranked forest was a node before. -/
theorem exists_of_mem_nodes_ranked (h : t ∈ Forest.nodes (ranked sorting f)) :
    ∃ s ∈ Forest.nodes f, Ranks sorting t s := by
  obtain ⟨above, hsituated⟩ := Tree.exists_situated h
  clear h
  induction hsituated with
  | root hmem =>
    obtain ⟨s, hs, hranks⟩ := exists_of_mem_ranked hmem
    exact ⟨s, Tree.mem_walk_of_mem hs, hranks⟩
  | child _ hmem ih =>
    obtain ⟨s, hs, hranks⟩ := ih
    rw [hranks.children] at hmem
    obtain ⟨c, hc, hbelow⟩ := exists_of_mem_ranked hmem
    exact ⟨c, Tree.mem_walk_of_child hs hc, hbelow⟩

/-- What becomes of a forest is like it. -/
theorem apply_alike (sorting : Sorting) (f : Forest) : Alike (apply sorting f).1 f := by
  obtain ⟨_, happlied⟩ | ⟨_, _, happlied⟩ := apply_cases sorting f
  · rw [happlied]
    exact ranked_alike sorting f
  · rw [happlied]
    exact .refl f

/-- Ranking fails just if a list of siblings without positions has a notation that cannot be read,
and then the forest stays as it is. Every other forest becomes the one in which the siblings of each
node are arranged. No node is lost, doubled or shown below another one than before. -/
theorem sorting_recursive (sorting : Sorting) (f : Forest) :
    ((∃ fault, apply sorting f = (f, some fault)) ↔ Faulty sorting f) ∧
    (apply sorting f = (ranked sorting f, none) ↔ ¬ Faulty sorting f) ∧
    (∀ t ∈ Forest.nodes (ranked sorting f),
      t.value.sortByNotation = decide (sorting.axis = .byNotation)) ∧
    Alike (apply sorting f).1 f := by
  have hmarked : ∀ t ∈ Forest.nodes (ranked sorting f),
      t.value.sortByNotation = decide (sorting.axis = .byNotation) := by
    intro t ht
    obtain ⟨s, _, hranks⟩ := exists_of_mem_nodes_ranked ht
    exact hranks.marked
  have hdiffer : ∀ fault : Notation.Fault, (ranked sorting f, none) ≠ (f, some fault) := by simp
  refine ⟨?_, ?_, hmarked, apply_alike sorting f⟩
  · obtain ⟨hreadable, happlied⟩ | ⟨hfaulty, fault, happlied⟩ := apply_cases sorting f
    · rw [happlied]
      exact ⟨fun ⟨fault, hfailed⟩ => absurd hfailed (hdiffer fault),
        fun hfaulty => absurd hfaulty hreadable⟩
    · exact ⟨fun _ => hfaulty, fun _ => ⟨fault, happlied⟩⟩
  · obtain ⟨hreadable, happlied⟩ | ⟨hfaulty, fault, happlied⟩ := apply_cases sorting f
    · exact ⟨fun _ => hreadable, fun _ => happlied⟩
    · rw [happlied]
      exact ⟨fun hranked => absurd hranked.symm (hdiffer fault),
        fun hreadable => absurd hfaulty hreadable⟩

end Ranking

end Thesaurus
