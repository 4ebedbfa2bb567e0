import Thesaurus.Proofs.Forest.Recursion

/-!
# Declared positions

An ordered collection with an accepted order lists its members at positions that ascend from the
first. Edges are scheduled and siblings are sorted by position before anything else, so nothing on
the way to the forest moves them; other collections give no positions at all.

- `sortOn_eq_of_ascending`, `sortSiblings_eq_self`: what is in order already is left as it is.
- `enumerated`: siblings at ascending positions.
- `Listed`: whether the children of a node stand where its resource lists them.
- `treeRule_stands`, `Phases.listed`: so they do in every tree of a forest.
-/

namespace Thesaurus

section Sorting

open Std (LawfulEqCmp ReflCmp TransCmp)

variable {α κ : Type} {key : α → κ} {cmp : κ → κ → Ordering} {l l' : List α}

/-- What ascends strictly has different keys. -/
theorem nodup_of_ascending [ReflCmp cmp] (h : l.Pairwise fun a b => cmp (key a) (key b) = .lt) :
    (l.map key).Nodup := by
  refine List.pairwise_map.2 (h.imp fun {a b} hless hsame => ?_)
  have hequal : cmp (key b) (key b) = .eq := ReflCmp.compare_self
  rw [hsame, hequal] at hless
  cases hless

/-- What ascends strictly is the sorted form of whatever has the same elements. -/
theorem sortOn_eq_of_ascending [TransCmp cmp] [LawfulEqCmp cmp] (hperm : l'.Perm l)
    (h : l.Pairwise fun a b => cmp (key a) (key b) = .lt) : sortOn key cmp l' = l := by
  have hapart := nodup_of_ascending h
  rw [sortOn_eq_of_perm hperm fun a ha b hb hsame => List.inj_on_of_nodup_map hapart ha hb hsame]
  exact List.mergeSort_of_pairwise (h.imp fun hless => by rw [hless]; rfl)

/-- Nothing repeats if all keys are different. -/
theorem dropRepeats_eq_self [DecidableEq κ] (h : (l.map key).Nodup) : dropRepeats key l = l := by
  have heverything : ((l.filter fun _ => true).map key).Nodup := by simpa using h
  simpa using filter_dropRepeats (fun _ _ _ => rfl) heverything

end Sorting

/-- The lesser position comes first, whatever else is compared. -/
theorem SiblingKey.compare_of_position {a b : SiblingKey} {i j : Nat} (ha : a.position = some i)
    (hb : b.position = some j) (hij : i < j) : SiblingKey.compare a b = .lt := by
  simp [SiblingKey.compare, ha, hb, absentLast, Nat.compare_eq_lt.2 hij]

/-- Siblings that ascend strictly are left as they are. -/
theorem sortSiblings_eq_self {siblings : List (Tree Entry)} (h : siblings.Pairwise fun s t =>
    SiblingKey.compare (siblingKey s) (siblingKey t) = .lt) : sortSiblings siblings = siblings := by
  rw [sortSiblings, sortOn_eq_of_ascending (List.Perm.refl _) h,
    dropRepeats_eq_self (nodup_of_ascending h)]

/-! ## Positions -/

/-- What a node shows of its place among its siblings: its IRI, its position and its rank. -/
def Entry.placing (e : Entry) : String × Option Nat × Option Nat :=
  (e.iri, e.position, e.notationRank)

/-- The places of siblings that are listed by their IRIs: positions without gaps, and no ranks. -/
def enumerated (iris : List String) : List (String × Option Nat × Option Nat) :=
  iris.zipIdx.map fun (iri, i) => (iri, some i, none)

/-- What is listed stands at ascending positions. -/
theorem pairwise_positions {siblings : List (Tree Entry)} {iris : List String}
    (h : siblings.map (·.value.placing) = enumerated iris) :
    siblings.Pairwise fun s t => ∃ i j, s.value.position = some i ∧ t.value.position = some j ∧
      i < j := by
  have hascending : (enumerated iris).Pairwise fun a b =>
      ∃ i j, a.2.1 = some i ∧ b.2.1 = some j ∧ i < j := by
    have hindices : (iris.zipIdx.map (·.2)).Pairwise (· < ·) := by
      rw [List.zipIdx_map_snd]
      exact List.pairwise_lt_range'
    exact List.pairwise_map.2 ((List.pairwise_map.1 hindices).imp fun hless =>
      ⟨_, _, rfl, rfl, hless⟩)
  rw [← h] at hascending
  exact List.pairwise_map.1 hascending

/-- Listed siblings are not moved. -/
theorem sortSiblings_enumerated {siblings : List (Tree Entry)} {iris : List String}
    (h : siblings.map (·.value.placing) = enumerated iris) : sortSiblings siblings = siblings :=
  sortSiblings_eq_self ((pairwise_positions h).imp fun ⟨_, _, hi, hj, hless⟩ =>
    SiblingKey.compare_of_position hi hj hless)

/-- A node of several trees is a node of one of them. -/
theorem Tree.exists_mem_walk {α : Type} {t : Tree α} {ts : List (Tree α)} (h : t ∈ walk ts) :
    ∃ s ∈ ts, t ∈ walk [s] := by
  induction ts with
  | nil => rw [walk] at h; cases h
  | cons s rest ih =>
    rw [← List.singleton_append, walk_append, List.mem_append] at h
    rcases h with h | h
    · exact ⟨s, List.mem_cons_self, h⟩
    · obtain ⟨s', hs', hinside⟩ := ih h
      exact ⟨s', List.mem_cons_of_mem _ hs', hinside⟩

/-- What is paired with something is paired with an element. -/
theorem exists_of_forall₂ {α β : Type} {R : α → β → Prop} {as : List α} {bs : List β} {b : β}
    (h : List.Forall₂ R as bs) (hb : b ∈ bs) : ∃ a ∈ as, R a b := by
  induction h with
  | nil => cases hb
  | cons hfirst _ ih =>
    rcases List.mem_cons.1 hb with rfl | hb
    · exact ⟨_, List.mem_cons_self, hfirst⟩
    · obtain ⟨a, ha, hpaired⟩ := ih hb
      exact ⟨a, List.mem_cons_of_mem _ ha, hpaired⟩

namespace Traversal

variable {g : ResourceGraph} {path : List Resource} {r : Resource} {e : Edge} {id : ResourceId}
  {edges : List Edge}

/-! ## Edges at positions -/

/-- Edges at ascending positions are followed in their order. -/
theorem schedule_positioned {contexts : OpenContexts} {pending : List Edge}
    (hscheduled : schedule g contexts edges = .ok pending) (hlt : ∀ e ∈ edges, e.target < g.size)
    (hpositions : edges.Pairwise fun a b =>
      ∃ i j, a.position = some i ∧ b.position = some j ∧ i < j) : pending = edges := by
  have hkeyed : ∀ e ∈ edges, ∃ key,
      edgeKey g contexts e = some key ∧ key.position = e.position := by
    intro e he
    obtain ⟨r, hr⟩ := ResourceGraph.exists_resource (hlt e he)
    exact ⟨_, by rw [edgeKey, hr]; rfl, rfl⟩
  have hascending : edges.Pairwise fun a b =>
      absentLast SiblingKey.compare (edgeKey g contexts a) (edgeKey g contexts b) = .lt := by
    refine hpositions.imp_of_mem fun {a b} ha hb => ?_
    rintro ⟨i, j, hi, hj, hless⟩
    obtain ⟨keyA, hfoundA, hpositionA⟩ := hkeyed a ha
    obtain ⟨keyB, hfoundB, hpositionB⟩ := hkeyed b hb
    rw [hfoundA, hfoundB]
    exact SiblingKey.compare_of_position (hpositionA.trans hi) (hpositionB.trans hj) hless
  unfold schedule at hscheduled
  split at hscheduled
  · cases hscheduled
  · cases hscheduled
    exact sortOn_eq_of_ascending (List.reverse_perm edges) hascending

/-- The order that an ordered collection declares. -/
def declared (r : Resource) : List ResourceId :=
  r.links.orderedMembers.getD []

theorem edgesBelow_collection (hkind : r.kind.isCollection = true) :
    edgesBelow g path r = memberEdges g r := by
  unfold edgesBelow
  cases hkind' : r.kind <;> first | rfl | (rw [hkind'] at hkind; cases hkind)

theorem isCollection_of_hasOrder (hordered : r.hasOrder = true) : r.kind.isCollection = true := by
  rw [beq_iff_eq.1 (Bool.and_eq_true_iff.1 hordered).1]
  rfl

/-- The edges below a collection with an order are at ascending positions. -/
theorem pairwise_memberEdges (hordered : r.hasOrder = true) :
    (memberEdges g r).Pairwise fun a b =>
      ∃ i j, a.position = some i ∧ b.position = some j ∧ i < j := by
  have hindices : ((declared r).zipIdx.map (·.2)).Pairwise (· < ·) := by
    rw [List.zipIdx_map_snd]
    exact List.pairwise_lt_range'
  rw [memberEdges, if_pos hordered]
  exact List.pairwise_map.2 ((List.pairwise_map.1 hindices).imp fun hless =>
    ⟨_, _, rfl, rfl, hless⟩)

/-- Every member of a collection with an order is the target of an edge. -/
theorem exists_memberEdge (horders : g.OrdersExact) (hr : g.Holds r) (hordered : r.hasOrder = true)
    (hid : id ∈ r.links.members) : ∃ e ∈ memberEdges g r, e.target = id := by
  obtain ⟨order, hfound⟩ := Option.isSome_iff_exists.1 (Bool.and_eq_true_iff.1 hordered).2
  have hexact := horders r.id order
  rw [hr.linksOf] at hexact
  have hlisted : id ∈ order := (hexact hfound).mem_iff.2 hid
  obtain ⟨i, hat⟩ := List.mem_iff_getElem?.1 hlisted
  refine ⟨positionedEdge (g.contextOf r) id i, ?_, rfl⟩
  rw [memberEdges, if_pos hordered, hfound]
  exact List.mem_map_of_mem (List.mk_mem_zipIdx_iff_getElem?.2 hat)

/-- The edges below any other collection are at no positions. -/
theorem position_memberEdges (hunordered : r.hasOrder = false) (he : e ∈ memberEdges g r) :
    e.position = none := by
  rw [memberEdges, hunordered, if_neg (by simp)] at he
  obtain ⟨id, _, hmade⟩ := List.mem_filterMap.1 he
  unfold memberEdge? at hmade
  split at hmade
  · split at hmade <;> cases hmade
    rfl
  all_goals cases hmade; try rfl

/-! ## Nodes at positions -/

/-- Whether the children of a node that owns a collection stand where the collection lists them, or
at no positions if it lists none. -/
structure Listed (g : ResourceGraph) (t : Tree Entry) : Prop where
  ordered : ∀ r, g.Holds r → t.value.reference = false → t.value.view = r.view →
    r.hasOrder = true →
    t.children.map (·.value.placing) = enumerated ((declared r).map fun id => (g.viewOf id).iri)
  unordered : ∀ r, g.Holds r → t.value.reference = false → t.value.view = r.view →
    r.kind.isCollection = true → r.hasOrder = false → ∀ c ∈ t.children, c.value.position = none

/-- Whether an edge led to a tree at its position, in which everything stands where it is listed. -/
def Stands (g : ResourceGraph) (e : Edge) (t : Tree Entry) : Prop :=
  t.value.placing = ((g.viewOf e.target).iri, e.position, none) ∧
    ∀ s ∈ Forest.nodes [t], Listed g s

/-- What edges lead to stands where they say. -/
theorem placings_of_stands {children : List (Tree Entry)}
    (h : List.Forall₂ (Stands g) edges children) : children.map (·.value.placing) =
      edges.map fun e => ((g.viewOf e.target).iri, e.position, none) := by
  induction h with
  | nil => rfl
  | cons hfirst _ ih => rw [List.map_cons, List.map_cons, ih, hfirst.1]

/-- The children of a collection with an order stand in it. -/
theorem children_ordered {children others : List (Tree Entry)} (h : Sound g)
    (horders : g.OrdersExact) (hr : g.Holds r)
    (hordered : r.hasOrder = true)
    (hscheduled : schedule g (g.contextsOn (r :: path)) (edgesBelow g path r) = .ok edges)
    (hchildren : List.Forall₂ (Stands g) edges children)
    (hothers : ∀ t ∈ others, ∃ c, g.contextOf? r = some c ∧ ∃ id ∈ c.members,
      ∀ e ∈ edges, e.target ≠ id) :
    (sortSiblings (children ++ others)).map (·.value.placing) =
      enumerated ((declared r).map fun id => (g.viewOf id).iri) := by
  have hkind : r.kind.isCollection = true := isCollection_of_hasOrder hordered
  have hbelow : edgesBelow g path r = memberEdges g r := edgesBelow_collection hkind
  have hinside : ∀ e ∈ memberEdges g r, e.target < g.size := fun e he =>
    edgesBelow_lt h hr (hbelow ▸ he)
  rw [hbelow] at hscheduled
  obtain rfl := schedule_positioned hscheduled hinside (pairwise_memberEdges hordered)
  -- all members are listed, so that none is left to be taken up
  have hnone : others = [] := by
    refine List.eq_nil_iff_forall_not_mem.2 fun t ht => ?_
    obtain ⟨c, hopens, id, hmember, hunlisted⟩ := hothers t ht
    unfold ResourceGraph.contextOf? at hopens
    split at hopens
    · cases hopens
      have hdeclared := (ResourceGraph.mem_contextOf.1 hmember).1
      rw [Resource.declaredMembers_of_isCollection hkind] at hdeclared
      obtain ⟨e, he, htarget⟩ := exists_memberEdge horders hr hordered hdeclared
      exact hunlisted e he htarget
    · cases hopens
  have hplaced : children.map (·.value.placing) =
      enumerated ((declared r).map fun id => (g.viewOf id).iri) := by
    rw [placings_of_stands hchildren, memberEdges, if_pos hordered, enumerated, List.zipIdx_map,
      List.map_map, List.map_map]
    rfl
  rw [hnone, List.append_nil, sortSiblings_enumerated hplaced, hplaced]

/-- The children of any other collection stand at no positions. -/
theorem children_unordered {children others : List (Tree Entry)}
    (hkind : r.kind.isCollection = true) (hunordered : r.hasOrder = false)
    (hscheduled : schedule g (g.contextsOn (r :: path)) (edgesBelow g path r) = .ok edges)
    (hchildren : List.Forall₂ (Stands g) edges children)
    (hothers : ∀ t ∈ others, t.value.position = none) :
    ∀ t ∈ sortSiblings (children ++ others), t.value.position = none := by
  intro t ht
  rcases List.mem_append.1 (mem_of_mem_sortSiblings ht) with ht | ht
  · obtain ⟨e, he, hstands⟩ := exists_of_forall₂ hchildren ht
    have hposition : e.position = none := by
      rw [edgesBelow_collection hkind] at hscheduled
      exact position_memberEdges hunordered ((schedule_ascending hscheduled).1.mem_iff.1 he)
    have hsame : t.value.position = e.position := congrArg (·.2.1) hstands.1
    exact hsame.trans hposition
  · exact hothers t ht

/-- The search keeps to the positions. -/
theorem treeRule_stands (h : Sound g) (horders : g.OrdersExact) (hapart : g.PrintsApart) :
    TreeRule g fun _ e t => Stands g e t where
  reference := by
    intro path e r top _ hholds htarget
    refine ⟨?_, fun s hs => ?_⟩
    · rw [← htarget, hholds.viewOf]
      rfl
    · obtain rfl : s = .leaf _ := by simpa [Forest.nodes, Tree.walk, Tree.leaf] using hs
      exact ⟨fun _ _ howned => (by cases howned), fun _ _ howned => (by cases howned)⟩
  owned := by
    intro path e r edges children others _ hholds htarget _ hscheduled hchildren hothers
    refine ⟨?_, fun s hs => ?_⟩
    · rw [← htarget, hholds.viewOf]
      rfl
    · rw [Forest.nodes, Tree.walk_cons, List.mem_cons, List.mem_append] at hs
      -- the node itself or one inside a child, which comes from an edge or is left over
      rcases hs with rfl | hinside | hnone
      · constructor
        · intro r' hholds' _ hview hordered
          obtain rfl := hapart.eq_of_view h.indexed hholds hholds' hview
          refine children_ordered h horders hholds hordered hscheduled hchildren fun t ht => ?_
          obtain ⟨c, hopens, id, hmember, hunlisted, _⟩ := hothers t ht
          exact ⟨c, hopens, id, hmember, hunlisted⟩
        · intro r' hholds' _ hview hkind hunordered
          obtain rfl := hapart.eq_of_view h.indexed hholds hholds' hview
          refine children_unordered hkind hunordered hscheduled hchildren fun t ht => ?_
          obtain ⟨_, _, _, _, _, hstands⟩ := hothers t ht
          exact congrArg (·.2.1) hstands.1
      · obtain ⟨c, hc, hinside⟩ := Tree.exists_mem_walk hinside
        rcases List.mem_append.1 (mem_of_mem_sortSiblings hc) with hc | hc
        · obtain ⟨e, _, hstands⟩ := exists_of_forall₂ hchildren hc
          exact hstands.2 s hinside
        · obtain ⟨_, _, _, _, _, hstands⟩ := hothers c hc
          exact hstands.2 s hinside
      · rw [Tree.walk] at hnone
        cases hnone

/-- In the trees of a forest everything stands where it is listed. -/
theorem Phases.listed (ph : Phases g) (h : Sound g) (horders : g.OrdersExact)
    (hapart : g.PrintsApart) : ∀ t ∈ Forest.nodes (sortSiblings ph.trees), Listed g t := by
  intro t ht
  obtain ⟨root, hroot, hinside⟩ := Tree.exists_mem_walk ht
  obtain ⟨id, hstands⟩ :=
    ph.follows (treeRule_stands h horders hapart) h root (mem_of_mem_sortSiblings hroot)
  exact hstands.2 t hinside

end Traversal

end Thesaurus
