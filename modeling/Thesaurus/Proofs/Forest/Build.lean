import Thesaurus.Proofs.Forest.Roots

/-!
# The forest of a sound graph

Trees are grown from the roots, one group after the other, and then from whatever is left. Each of
them is placed, and together they own every resource of known kind.

- `Phases`: the trees that are grown from each group of roots and from what is left.
- `exists_phases`: growing them never fails.
- `Phases.rule`: what each tree keeps holds of all of them.
- `exists_build`: a sound graph has a forest.
-/

namespace Thesaurus

namespace Traversal

variable {g : ResourceGraph} {p : Progress} {r : Resource}

/-! ## What is left -/

/-- Once all schemes are complete, the concepts that belong to one are visited. -/
theorem visited_of_scheme (h : Sound g) (hp : p.Valid g)
    (hschemes : ∀ r, g.Holds r → r.kind = .conceptScheme → g.configuration.conceptSchemes = true →
      r.id ∉ p.unvisited)
    (hr : g.Holds r) (hkind : r.kind = .concept) (hinside : g.shownOutside r.id = false) :
    r.id ∉ p.unvisited := by
  have hboth : g.configuration.conceptSchemes = true ∧
      (g.linksOf r.id).inSchemes.toList.isEmpty = false := by
    simpa [ResourceGraph.shownOutside, IdSet.isEmpty] using hinside
  obtain ⟨hshown, hinSome⟩ := hboth
  obtain ⟨s, hs⟩ := List.isEmpty_eq_false_iff_exists_mem.1 hinSome
  -- its scheme was visited and is complete, so that the concept was visited too
  have hmember := (h.linked.schemeMember_iff s r.id).2 hs
  have hscheme := h.linked.scheme_kind s r.id hmember
  have hschemeIn : s < g.size := ResourceGraph.lt_size_of_kindOf (by simp [hscheme])
  obtain ⟨k, hkHolds, rfl⟩ := ResourceGraph.exists_held h.indexed hschemeIn
  rw [hkHolds.kindOf] at hscheme
  rw [hkHolds.linksOf] at hmember
  have hmem : r.id ∈ (g.contextOf k).members := by
    refine ResourceGraph.mem_contextOf.2 ⟨?_, hr.kindOf.trans hkind⟩
    rw [Resource.declaredMembers, if_pos hscheme]
    exact hmember
  exact hp.settled k hkHolds (by rw [hscheme]; rfl) (hschemes k hkHolds hscheme hshown)
    List.not_mem_nil r.id hmem

/-- Once a collection is complete, the concepts that are its members are visited. -/
theorem visited_of_collection {k : ResourceId} (h : Sound g) (hp : p.Valid g)
    (hclosed : k ∉ p.unvisited) (hmember : r.id ∈ (g.linksOf k).members) (hr : g.Holds r)
    (hkind : r.kind = .concept) : r.id ∉ p.unvisited := by
  have hcollection := h.linked.collection_kind k r.id hmember
  obtain ⟨s, hsHolds, rfl⟩ :=
    ResourceGraph.exists_held h.indexed (Sound.lt_size_of_mem (f := (·.members)) rfl hmember)
  rw [hsHolds.kindOf] at hcollection
  rw [hsHolds.linksOf] at hmember
  have hmem : r.id ∈ (g.contextOf s).members := by
    refine ResourceGraph.mem_contextOf.2 ⟨?_, hr.kindOf.trans hkind⟩
    rwa [Resource.declaredMembers_of_isCollection hcollection]
  exact hp.settled s hsHolds (Kind.gathers_of_isCollection hcollection) hclosed List.not_mem_nil
    r.id hmem

/-- What is left once all schemes are complete can be shown at the top. -/
theorem apt_of_unvisited (h : Sound g) (hp : p.Valid g)
    (hschemes : ∀ r, g.Holds r → r.kind = .conceptScheme → g.configuration.conceptSchemes = true →
      r.id ∉ p.unvisited) {id : ResourceId} (hid : id ∈ p.unvisited) :
    Apt g [] { target := id } := by
  obtain ⟨r, hholds, rfl⟩ :=
    ResourceGraph.exists_held h.indexed (ResourceGraph.lt_size_of_isKnown (hp.typed id hid))
  refine apt_of_root hholds fun hconcept => ?_
  by_contra hhidden
  exact visited_of_scheme h hp hschemes hholds hconcept (Bool.eq_false_iff.2 hhidden) hid

/-! ## The start -/

/-- What is shown of all resources of known kind. -/
def knownViews (g : ResourceGraph) : List View :=
  (g.resources.toList.filter (·.kind.isKnown)).map (·.view)

theorem viewsOf_typedIds (g : ResourceGraph) :
    (typedIds g).toList.map g.viewOf = knownViews g := by
  -- by induction on the resources, of which the ids are the places
  have hplaces : ∀ l : List Resource,
      ((List.range l.length).filter fun i => (l[i]?.elim Kind.unknown (·.kind)).isKnown).map
        (fun i => l[i]?.elim default (·.view)) = (l.filter (·.kind.isKnown)).map (·.view) := by
    intro l
    induction l with
    | nil => rfl
    | cons r rest ih =>
      rw [List.length_cons, List.range_succ_eq_map]
      by_cases hknown : r.kind.isKnown = true
      · rw [List.filter_cons_of_pos (by simpa using hknown),
          List.filter_cons_of_pos (by simpa using hknown), List.map_cons, List.map_cons, ← ih,
          List.filter_map, List.map_map]
        rfl
      · rw [List.filter_cons_of_neg (by simpa using hknown),
          List.filter_cons_of_neg (by simpa using hknown), ← ih, List.filter_map, List.map_map]
        rfl
  have hlisted := hplaces g.resources.toList
  simp only [Array.length_toList, Array.getElem?_toList] at hlisted
  exact hlisted

/-- At the start nothing is visited, so nothing has to be complete. -/
theorem start_valid (g : ResourceGraph) : Progress.Valid g { unvisited := typedIds g } := by
  constructor
  · intro id hid
    exact (IdSet.mem_filter.1 hid).2
  · intro r hr hgathers hclosed _ id _
    refine absurd (IdSet.mem_filter.2 ⟨IdSet.mem_below.2 hr.lt_size, ?_⟩) hclosed
    rw [hr.kindOf]
    cases hkind : r.kind <;> simp_all [Kind.gathers, Kind.isKnown]

/-- Resources of known kind that print apart are shown with different IRIs. -/
theorem nodup_knownViews (h : Sound g) (hapart : g.PrintsApart) :
    ((knownViews g).map (·.iri)).Nodup := by
  rw [← viewsOf_typedIds]
  exact (start_valid g).nodup_iris h hapart

/-! ## The trees -/

/-- The four phases in which a forest is built (§4.4): trees are grown from the root concepts, then
from schemes, from root collections, and from what is left, with what was found after each of them.
In the end everything is visited. -/
structure Phases (g : ResourceGraph) where
  ofConcepts : Forest
  ofSchemes : Forest
  ofCollections : Forest
  ofOthers : Forest
  afterConcepts : Progress
  afterSchemes : Progress
  afterCollections : Progress
  atEnd : Progress
  concepts : Grown g (plannedIds (rootConcepts g)) { unvisited := typedIds g } ofConcepts
    afterConcepts
  schemes : Grown g (plannedIds (rootSchemes g)) afterConcepts ofSchemes afterSchemes
  collections : Grown g (plannedIds (rootCollections g)) afterSchemes ofCollections
    afterCollections
  promoted : promote g afterCollections = .ok (ofOthers, atEnd)
  apt : ∀ id ∈ afterCollections.unvisited, Apt g [] { target := id }
  others : Planted g afterCollections ofOthers atEnd
  complete : atEnd.unvisited.toList = []

theorem exists_phases (h : Sound g) : Nonempty (Phases g) := by
  obtain ⟨t₁, p₁, hconcepts⟩ := exists_growEach h (start_valid g) fun _ hid =>
    apt_of_rootConcept h.indexed hid
  obtain ⟨t₂, p₂, hschemes⟩ := exists_growEach h hconcepts.valid fun _ hid =>
    apt_of_rootScheme h.indexed hid
  obtain ⟨t₃, p₃, hcollections⟩ := exists_growEach h hschemes.valid fun _ hid =>
    apt_of_rootCollection h.indexed hid
  -- all schemes are roots, so that they are complete before anything is promoted
  have hvisited : ∀ r, g.Holds r → r.kind = .conceptScheme →
      g.configuration.conceptSchemes = true → r.id ∉ p₃.unvisited := fun r hr hkind hshown hid =>
    hschemes.visited r.id ((mem_rootSchemes h.indexed).2 ⟨r, hr, ⟨hkind, hshown⟩, rfl⟩)
      (hcollections.fewer r.id hid)
  have hapt : ∀ id ∈ p₃.unvisited, Apt g [] { target := id } := fun id hid =>
    apt_of_unvisited h hcollections.valid hvisited hid
  obtain ⟨t₄, p₄, hpromoted, hothers, hcomplete⟩ := exists_promote h hcollections.valid hapt
  exact ⟨⟨t₁, t₂, t₃, t₄, p₁, p₂, p₃, p₄, hconcepts, hschemes, hcollections, hpromoted, hapt,
    hothers, hcomplete⟩⟩

namespace Phases

/-- The trees of the roots. -/
def ofRoots (ph : Phases g) : Forest :=
  ph.ofConcepts ++ ph.ofSchemes ++ ph.ofCollections

/-- All trees. -/
def trees (ph : Phases g) : Forest :=
  ph.ofRoots ++ ph.ofOthers

variable (ph : Phases g) {t : Tree Entry}

theorem mem_ofRoots : t ∈ ph.ofRoots ↔
    t ∈ ph.ofConcepts ∨ t ∈ ph.ofSchemes ∨ t ∈ ph.ofCollections := by
  simp only [ofRoots, List.mem_append, or_assoc]

theorem mem_trees : t ∈ ph.trees ↔ t ∈ ph.ofRoots ∨ t ∈ ph.ofOthers :=
  List.mem_append

theorem planted_roots : Planted g { unvisited := typedIds g } ph.ofRoots ph.afterCollections :=
  (ph.concepts.toPlanted.append ph.schemes.toPlanted).append ph.collections.toPlanted

theorem planted : Planted g { unvisited := typedIds g } ph.trees ph.atEnd :=
  ph.planted_roots.append ph.others

theorem grown_roots : growEach g (plannedRoots g) { unvisited := typedIds g } =
    .ok (ph.ofRoots, ph.afterCollections) :=
  growEach_append (growEach_append ph.concepts.grown ph.schemes.grown) ph.collections.grown

/-- Where schemes are shown, all of them are visited in their phase. -/
theorem scheme_visited (h : Sound g) (hr : g.Holds r) (hkind : r.kind = .conceptScheme)
    (hschemes : g.configuration.conceptSchemes = true) : r.id ∉ ph.afterSchemes.unvisited :=
  ph.schemes.visited r.id ((mem_rootSchemes h.indexed).2 ⟨r, hr, ⟨hkind, hschemes⟩, rfl⟩)

/-- In the end everything is visited. -/
theorem visited_atEnd (id : ResourceId) : id ∉ ph.atEnd.unvisited := by
  rw [IdSet.mem_def, ph.complete]
  exact List.not_mem_nil

/-- The forest of a sound graph consists of these trees. -/
theorem build_eq (h : Sound g) : build g = .ok
    ⟨sortSiblings ph.trees, ph.atEnd.cycle, ph.atEnd.onlyTreeEdges, ph.atEnd.issues⟩ := by
  simp only [build, roots_eq h, ph.grown_roots, ph.promoted]
  rfl

/-- What each tree keeps holds of all of them. -/
theorem rule {J : Forest → Progress → Prop} (h : Sound g)
    (hstart : J [] { unvisited := typedIds g })
    (hone : ∀ id done p tree later, p.Valid g → Apt g [] { target := id } → id ∈ p.unvisited →
      J done p → grow g { target := id } p = .ok (tree, later) → J (done ++ [tree]) later) :
    J ph.trees ph.atEnd := by
  have hroots : J ([] ++ ph.ofRoots) ph.afterCollections :=
    growEach_rule [] h (start_valid g) (fun _ hid => apt_of_mem_roots h.indexed hid)
      (fun id hid done p tree later hp =>
        hone id done p tree later hp (apt_of_mem_roots h.indexed hid))
      ph.grown_roots hstart
  exact promote_rule h ph.planted_roots.valid ph.apt hone ph.promoted hroots

/-- The trees own every resource of known kind. -/
theorem covered (hapart : g.PrintsApart) :
    (Forest.ownedViews ph.trees).Perm (knownViews g) := by
  have hcovered := ph.planted.covered hapart
  have hunvisited : unvisitedViews g ph.atEnd = [] := by
    rw [unvisitedViews, ph.complete]
    rfl
  rw [hunvisited, List.append_nil] at hcovered
  have hknown : unvisitedViews g { unvisited := typedIds g } = knownViews g := viewsOf_typedIds g
  rwa [hknown] at hcovered

/-- What the trees own is shown with different IRIs. -/
theorem nodup_iris (h : Sound g) (hapart : g.PrintsApart) :
    ((Forest.ownedViews ph.trees).map (·.iri)).Nodup :=
  (((ph.covered hapart).map (·.iri)).nodup_iff).2 (nodup_knownViews h hapart)

/-- All trees own their roots. -/
theorem owned : ∀ t ∈ ph.trees, t.value.reference = false := by
  intro t ht
  obtain ⟨id, _, hroot⟩ := ph.planted.rooted t ht
  exact hroot.owned

/-- No two roots show the same IRI. -/
theorem nodup_rootIris (h : Sound g) (hapart : g.PrintsApart) : ph.trees.rootIris.Nodup := by
  have heverything : ph.trees.filter (!·.value.reference) = ph.trees :=
    List.filter_eq_self.2 fun t ht => by simp [ph.owned t ht]
  have hiris := (ph.nodup_iris h hapart).sublist ((Forest.ownedRoots_sublist ph.trees).map (·.iri))
  rw [heverything, List.map_map] at hiris
  exact hiris

/-- No tree is lost when they are sorted. -/
theorem sorted_perm (h : Sound g) (hapart : g.PrintsApart) :
    (sortSiblings ph.trees).Perm ph.trees := by
  refine sortSiblings_perm (List.Nodup.of_map SiblingKey.iri ?_)
  rw [List.map_map]
  exact ph.nodup_rootIris h hapart

end Phases

/-- A sound graph has a forest. All of its nodes are placed, and it owns exactly what has a kind. -/
theorem exists_build (h : Sound g) : ∃ built, build g = .ok built ∧
    (∀ t ∈ built.forest, Placed g [] t) ∧
    (g.PrintsApart → (Forest.ownedViews built.forest).Perm (knownViews g)) := by
  obtain ⟨ph⟩ := exists_phases h
  refine ⟨_, ph.build_eq h, ?_, ?_⟩
  · intro t ht
    exact ph.planted.placed t (mem_of_mem_sortSiblings ht)
  · intro hapart
    exact (Forest.ownedViews_perm (ph.sorted_perm h hapart)).trans (ph.covered hapart)

end Traversal

end Thesaurus
