import Thesaurus.Hierarchy.Stats
import Thesaurus.Proofs.Forest.Build
import Thesaurus.Proofs.Forest.Ranking
import Thesaurus.Proofs.Graph.Finish
import Thesaurus.Proofs.Hierarchy.Stats

/-!
# The shape of a forest

The nodes of a forest are spoken of here by what they show: a node and those above it lead back to
resources of the graph by their IRIs.

- `ResourceGraph.withIri?`: the resource that is shown with an IRI.
- `Traversal.Placed.situated_trail`: every node is placed at the end of the trail of the nodes above
  it.
- `Forest.KeepsScopes`, `scopes_kept`: concepts are shown where schemes and collections allow it,
  and flagged as top concepts where they are.
- `Forest.HasExactChildren`, `children_exact`: the children of an owned concept are exactly those
  that its place demands.
-/

namespace Thesaurus

/-- The resource that is shown with an IRI. -/
def ResourceGraph.withIri? (g : ResourceGraph) (iri : String) : Option Resource :=
  g.resources.toList.find? (·.node.text = iri)

namespace Traversal

variable {g : ResourceGraph} {path : List Resource} {f : Forest} {t : Tree Entry}
  {above : List Entry} {r : Resource} {e : Entry}

/-! ## Back to resources -/

/-- A node leads back to the resource that it shows. -/
theorem withIri?_eq (h : Indexed g) (hapart : g.PrintsApart) (hr : g.Holds r)
    (hview : e.view = r.view) : g.withIri? e.iri = some r := by
  have hiri : e.iri = r.node.text := congrArg View.iri hview
  have hmem : r ∈ g.resources.toList := ResourceGraph.mem_resources_iff.2 ⟨r.id, hr⟩
  cases hfound : g.withIri? e.iri with
  | none =>
    have habsent := List.find?_eq_none.1 hfound r hmem
    simp [hiri] at habsent
  | some s =>
    -- what is found prints like the resource, so that it is the resource
    have htext : s.node.text = r.node.text := by
      rw [← hiri]
      simpa using List.find?_some hfound
    have hsMem := List.mem_of_find?_eq_some hfound
    obtain ⟨i, hi⟩ := ResourceGraph.mem_resources_iff.1 hsMem
    have hnode := hapart s.node (List.mem_map_of_mem hsMem) r.node (List.mem_map_of_mem hmem) htext
    have hsame : i = r.id := h.node_inj i r.id s r hi hr hnode
    rw [hsame, hr] at hi
    rw [hi]

/-- Whether nodes above each other show the resources of a path. -/
def ShowPath (g : ResourceGraph) : List Entry → List Resource → Prop :=
  List.Forall₂ fun e r => g.Holds r ∧ e.view = r.view

theorem ShowPath.holds (h : ShowPath g above path) : ∀ r ∈ path, g.Holds r := by
  induction h with
  | nil => exact fun r hr => absurd hr List.not_mem_nil
  | @cons e r above path hshows _ ih =>
    intro s hs
    rcases List.mem_cons.1 hs with rfl | hs
    · exact hshows.1
    · exact ih s hs

theorem ShowPath.map_view (h : ShowPath g above path) :
    above.map (·.view) = path.map (·.view) := by
  induction h with
  | nil => rfl
  | cons hshows _ ih => rw [List.map_cons, List.map_cons, hshows.2, ih]

/-- Nodes above each other lead back to their path. -/
theorem ShowPath.map_withIri? (h : ShowPath g above path) (hg : Indexed g)
    (hapart : g.PrintsApart) : above.map (g.withIri? ·.iri) = path.map some := by
  induction h with
  | nil => rfl
  | @cons e r above path hshows _ ih =>
    rw [List.map_cons, List.map_cons, withIri?_eq hg hapart hshows.1 hshows.2, ih]

/-- Every node is placed, at the end of the trail of the resources that the nodes above it show. -/
theorem Placed.situated_trail (hf : ∀ t ∈ f, Placed g [] t) (ht : Tree.Situated f above t) :
    ∃ path, ShowPath g above path ∧ g.Trail path ∧ Placed g path t := by
  induction ht with
  | root hmem => exact ⟨[], .nil, trivial, hf _ hmem⟩
  | child _ hmem ih =>
    obtain ⟨path, hshows, htrail, hplaced⟩ := ih
    cases hplaced with
    | reference => cases hmem
    | @owned _ r e children _ hshown _ hbelow =>
      exact ⟨r :: path, .cons ⟨hshown.holds, hshown.view_eq⟩ hshows, ⟨hshown.toFits, htrail⟩,
        hbelow _ hmem⟩

theorem Placed.situated (hf : ∀ t ∈ f, Placed g [] t) (ht : Tree.Situated f above t) :
    ∃ path, ShowPath g above path ∧ Placed g path t := by
  obtain ⟨path, hshows, _, hplaced⟩ := Placed.situated_trail hf ht
  exact ⟨path, hshows, hplaced⟩

theorem Placed.shown (h : Placed g path t) : ∃ r, Shown g path r t.value := by
  cases h with
  | reference _ hshown => exact ⟨_, hshown⟩
  | owned _ hshown => exact ⟨_, hshown⟩

/-- References have no children. -/
theorem leafReferences (hf : ∀ t ∈ f, Placed g [] t) : f.LeafReferences := by
  intro t ht hhref
  obtain ⟨above, hsituated⟩ := Tree.exists_situated ht
  obtain ⟨path, _, hplaced⟩ := Placed.situated hf hsituated
  exact hplaced.leaf hhref

end Traversal

open Traversal

/-! ## Where concepts are shown -/

/-- Whether every concept of a forest, owned or referred to, is shown where the nearest scheme or
collection above it allows it, and every node is flagged as a top concept just where that is a
scheme which declares it as one. -/
def Forest.KeepsScopes (g : ResourceGraph) (f : Forest) : Prop :=
  ∀ above t, Tree.Situated f above t → ∃ (r : Resource) (path : List Resource),
    g.withIri? t.value.iri = some r ∧ above.map (g.withIri? ·.iri) = path.map some ∧
    (r.kind = .concept → g.InScope path r) ∧ t.value.topConcept = isTopOn path r.id

/-- The forest of every reachable graph keeps to the scopes of schemes and collections. -/
theorem scopes_kept (g : ResourceGraph) (hreach : Reachable g) (hapart : g.PrintsApart) :
    ∃ built, build g = .ok built ∧ built.forest.KeepsScopes g := by
  have hsound := hreach.sound
  obtain ⟨built, hgrown, hplaced, _⟩ := exists_build hsound
  refine ⟨built, hgrown, fun above t hsituated => ?_⟩
  obtain ⟨path, hshows, htreePlaced⟩ := Placed.situated hplaced hsituated
  obtain ⟨r, hshown⟩ := htreePlaced.shown
  exact ⟨r, path, withIri?_eq hsound.indexed hapart hshown.holds hshown.view_eq,
    hshows.map_withIri? hsound.indexed hapart, hshown.in_scope, hshown.top_eq⟩

/-- Statements about a scheme with two concepts, one of which is narrower than the other and a
declared top concept. -/
def smallStatements : List Rdf.Triple := [
  ⟨.iri "urn:a", "http://www.w3.org/2004/02/skos/core#inScheme", .node (.iri "urn:s")⟩,
  ⟨.iri "urn:b", "http://www.w3.org/2004/02/skos/core#topConceptOf", .node (.iri "urn:s")⟩,
  ⟨.iri "urn:a", "http://www.w3.org/2004/02/skos/core#narrower", .node (.iri "urn:b")⟩]

/-- The graph of these statements where schemes are shown. -/
def smallScheme : ResourceGraph where
  configuration := { conceptSchemes := true }
  resources := #[
    { id := 0, node := .iri "urn:s", kind := .conceptScheme,
      links := { schemeMembers := .ofList [1, 2], topConcepts := .ofList [2] } },
    { id := 1, node := .iri "urn:a", kind := .concept,
      links := { narrower := .ofList [2], inSchemes := .ofList [0] } },
    { id := 2, node := .iri "urn:b", kind := .concept,
      links := { broader := .ofList [1], inSchemes := .ofList [0] } }]
  index := ⟨[(.iri "urn:s", 0), (.iri "urn:a", 1), (.iri "urn:b", 2)]⟩
  counters := { triples := 3 }

theorem smallScheme_reachable : Reachable smallScheme := by
  have htaken : (ResourceGraph.new { conceptSchemes := true }).ingestAll smallStatements =
      .ok smallScheme := by decide +kernel
  exact (Reachable.new _).ingestAll htaken

theorem smallScheme_printsApart : smallScheme.PrintsApart := by
  show PrintApart _
  decide

theorem scopes_kept_smallScheme : Reachable smallScheme ∧ smallScheme.PrintsApart ∧
    ∃ built, build smallScheme = .ok built ∧ built.forest.KeepsScopes smallScheme :=
  ⟨smallScheme_reachable, smallScheme_printsApart,
    scopes_kept smallScheme smallScheme_reachable smallScheme_printsApart⟩

/-! ## The children of concepts -/

namespace Traversal

variable {g : ResourceGraph} {path : List Resource} {f : Forest} {t : Tree Entry} {r : Resource}
  {children : List (Tree Entry)}

/-- Children lead back to resources that they show. -/
theorem exists_shown (h : Indexed g) (hapart : g.PrintsApart)
    (hplaced : ∀ t ∈ children, Placed g path t) : ∃ below : List Resource,
      children.map (g.withIri? ·.value.iri) = below.map some ∧
      children.map (·.value.view) = below.map (·.view) ∧ ∀ r ∈ below, g.Holds r := by
  induction children with
  | nil => exact ⟨[], rfl, rfl, fun r hr => absurd hr List.not_mem_nil⟩
  | cons t rest ih =>
    obtain ⟨below, hback, hviews, hholds⟩ := ih fun s hs => hplaced s (List.mem_cons_of_mem _ hs)
    obtain ⟨r, hshown⟩ := (hplaced t List.mem_cons_self).shown
    refine ⟨r :: below, ?_, ?_, ?_⟩
    · rw [List.map_cons, List.map_cons, hback, withIri?_eq h hapart hshown.holds hshown.view_eq]
    · rw [List.map_cons, List.map_cons, hviews, hshown.view_eq]
    · intro s hs
      rcases List.mem_cons.1 hs with rfl | hs
      · exact hshown.holds
      · exact hholds s hs

/-- The id of the resource that is shown as a view. -/
def idOfView (g : ResourceGraph) (v : View) : ResourceId :=
  (g.withIri? v.iri).elim 0 (·.id)

theorem idOfView_view (h : Indexed g) (hapart : g.PrintsApart) (hr : g.Holds r) :
    idOfView g r.view = r.id := by
  have hfound : g.withIri? r.view.iri = some r :=
    withIri?_eq (e := { view := r.view }) h hapart hr rfl
  rw [idOfView, hfound]
  rfl

/-- Below an owned concept the resources are those that its place demands, each once. -/
theorem Placed.below_owned (h : Sound g) (hapart : g.PrintsApart) (ht : Placed g path t)
    (howned : t.value.reference = false) (hkind : t.value.view.kind = .concept) :
    ∃ (r : Resource) (below : List Resource), g.Holds r ∧ t.value.view = r.view ∧
      r.kind = .concept ∧
      t.children.map (g.withIri? ·.value.iri) = below.map some ∧
      (below.map (·.id)).Perm (g.narrowerIn path r) := by
  cases ht with
  | reference hreference =>
    rw [Tree.leaf, Tree.value_node, hreference] at howned
    cases howned
  | @owned _ r e children _ hshown hexact hbelow =>
    have hconcept : r.kind = .concept := by
      rw [← hkind]
      exact congrArg View.kind hshown.view_eq.symm
    obtain ⟨resources, hback, hviews, hholds⟩ := exists_shown h.indexed hapart hbelow
    refine ⟨r, resources, hshown.holds, hshown.view_eq, hconcept, hback, ?_⟩
    -- views are told apart by their IRIs, so that they can be read as ids
    have hids := (hexact hapart hconcept).map (idOfView g)
    rw [hviews, List.map_map, List.map_map] at hids
    have hleft : resources.map (idOfView g ∘ (·.view)) = resources.map (·.id) :=
      List.map_congr_left fun s hs => idOfView_view h.indexed hapart (hholds s hs)
    have hright : (g.narrowerIn path r).map (idOfView g ∘ g.viewOf) = g.narrowerIn path r := by
      have heach : ∀ id ∈ g.narrowerIn path r, (idOfView g ∘ g.viewOf) id = id := by
        intro id hid
        have hnarrower := (ResourceGraph.mem_narrowerIn h hshown.holds hid).1
        obtain ⟨s, hsHolds, rfl⟩ :=
          ResourceGraph.exists_held h.indexed (hshown.holds.narrower_lt h hnarrower)
        rw [Function.comp_apply, hsHolds.viewOf, idOfView_view h.indexed hapart hsHolds]
      exact (List.map_congr_left heach).trans (List.map_id _)
    rw [hleft, hright] at hids
    exact hids

/-! ## Forests without schemes and collections -/

/-- The number of narrower concepts of the resource that is shown as a view. -/
def narrowerCount (g : ResourceGraph) (v : View) : Nat :=
  (g.withIri? v.iri).elim 0 (·.links.narrower.size)

/-- If the children of owned nodes are as many as a count says and references have none, the
children of all nodes are as many as the counts of the owned ones together. -/
theorem sum_children (count : View → Nat) {nodes : List (Tree Entry)}
    (hreference : ∀ t ∈ nodes, t.value.reference = true → t.children = [])
    (howned : ∀ t ∈ nodes, t.value.reference = false → t.children.length = count t.value.view) :
    (nodes.map (·.children.length)).sum =
      (((nodes.filter (!·.value.reference)).map (·.value.view)).map count).sum := by
  induction nodes with
  | nil => rfl
  | cons t rest ih =>
    have hlater := ih (fun s hs => hreference s (List.mem_cons_of_mem _ hs))
      fun s hs => howned s (List.mem_cons_of_mem _ hs)
    rw [List.map_cons, List.sum_cons, hlater]
    by_cases hhref : t.value.reference = true
    · rw [hreference t List.mem_cons_self hhref, List.filter_cons_of_neg (by simp [hhref])]
      exact Nat.zero_add _
    · have howned' : t.value.reference = false := by simpa using hhref
      rw [howned t List.mem_cons_self howned', List.filter_cons_of_pos (by simp [howned']),
        List.map_cons, List.map_cons, List.sum_cons]

/-- The narrower concepts of what is shown are as many as the edges of the graph, since only
resources of known kind have any. -/
theorem sum_narrowerCount (h : Sound g) (hapart : g.PrintsApart) :
    ((knownViews g).map (narrowerCount g)).sum = g.stats.hierarchyEdges := by
  have hholds : ∀ r ∈ g.resources.toList, g.Holds r := fun r hr =>
    ResourceGraph.holds_of_mem h.indexed hr
  have heach : ∀ r ∈ g.resources.toList, r.links.narrower.size =
      if r.kind.isKnown then narrowerCount g r.view else 0 := by
    intro r hr
    by_cases hknown : r.kind.isKnown = true
    · have hfound : g.withIri? r.view.iri = some r :=
        withIri?_eq (e := { view := r.view }) h.indexed hapart (hholds r hr) rfl
      rw [if_pos hknown, narrowerCount, hfound]
      rfl
    · rw [if_neg hknown]
      refine List.length_eq_zero_iff.2 (List.eq_nil_iff_forall_not_mem.2 fun id hid => hknown ?_)
      have hlinked : id ∈ (g.linksOf r.id).narrower := by
        rw [(hholds r hr).linksOf]
        exact hid
      have hconcept := (h.linked.narrower_kinds r.id id hlinked).1
      rw [(hholds r hr).kindOf] at hconcept
      rw [hconcept]
      rfl
  -- by induction on the resources, of which those without a kind add nothing
  have hsums : ∀ l : List Resource, (∀ r ∈ l, r.links.narrower.size =
      if r.kind.isKnown then narrowerCount g r.view else 0) →
      (((l.filter (·.kind.isKnown)).map (·.view)).map (narrowerCount g)).sum =
        (l.flatMap (·.links.narrower.toList)).length := by
    intro l hl
    induction l with
    | nil => rfl
    | cons r rest ih =>
      have hlater := ih fun s hs => hl s (List.mem_cons_of_mem _ hs)
      have hfirst := hl r List.mem_cons_self
      rw [List.flatMap_cons, List.length_append, ← hlater]
      by_cases hknown : r.kind.isKnown = true
      · rw [if_pos hknown] at hfirst
        rw [List.filter_cons_of_pos (by simpa using hknown), List.map_cons, List.map_cons,
          List.sum_cons, ← hfirst]
        rfl
      · rw [if_neg hknown] at hfirst
        rw [List.filter_cons_of_neg (by simpa using hknown)]
        exact (Nat.zero_add _).symm.trans (congrArg (· + _) hfirst.symm)
  exact hsums g.resources.toList heach

/-- Where neither schemes nor collections are considered, resources of known kind are concepts. -/
theorem concept_of_classic (h : Sound g) (hschemes : g.configuration.conceptSchemes = false)
    (hcollections : g.configuration.collections = false) (hr : g.Holds r) :
    r.kind.gathers = false ∧ (r.kind.isKnown = true → r.kind = .concept) := by
  have hconsidered := h.considered r.id
  rw [hr.kindOf] at hconsidered
  cases hkind : r.kind <;>
    simp_all [Configuration.considersKind, Kind.gathers, Kind.isKnown]

/-- Without schemes and collections, the children of an owned node are all its narrower concepts. -/
theorem length_children_classic (h : Sound g) (hapart : g.PrintsApart)
    (hschemes : g.configuration.conceptSchemes = false)
    (hcollections : g.configuration.collections = false) (hpath : ∀ q ∈ path, g.Holds q)
    (ht : Placed g path t) (howned : t.value.reference = false)
    (hknown : t.value.view.kind.isKnown = true) :
    t.children.length = narrowerCount g t.value.view := by
  have hconcept : t.value.view.kind = .concept := by
    obtain ⟨r, hshown⟩ := ht.shown
    have hsame : t.value.view.kind = r.kind := congrArg View.kind hshown.view_eq
    rw [hsame] at hknown ⊢
    exact (concept_of_classic h hschemes hcollections hshown.holds).2 hknown
  obtain ⟨r, below, hholds, hview, _, hback, hperm⟩ := ht.below_owned h hapart howned hconcept
  -- there are no contexts, so that all narrower concepts count
  have hnearest : nearestContext? path = none := by
    refine List.find?_eq_none.2 fun q hq => ?_
    simp [(concept_of_classic h hschemes hcollections (hpath q hq)).1]
  have hall : g.narrowerIn path r = r.links.narrower.toList := by
    simp [ResourceGraph.narrowerIn, hnearest, ResourceGraph.shownOutside, hschemes]
  have hfound : g.withIri? t.value.view.iri = some r :=
    withIri?_eq (e := t.value) h.indexed hapart hholds hview
  have hlengths := congrArg List.length hback
  rw [List.length_map, List.length_map] at hlengths
  have hnarrower := hperm.length_eq
  rw [List.length_map, hall] at hnarrower
  rw [narrowerCount, hfound, hlengths, hnarrower]
  rfl

end Traversal

/-- Whether the children of every owned concept of a forest are exactly those that its place
demands, each once: outside all contexts the narrower concepts that belong to no scheme which is
shown, and in a context those that are members, or none if it is shown in order. -/
def Forest.HasExactChildren (g : ResourceGraph) (f : Forest) : Prop :=
  ∀ above t, Tree.Situated f above t → t.value.reference = false → t.value.view.kind = .concept →
    ∃ (r : Resource) (path below : List Resource), g.withIri? t.value.iri = some r ∧
      above.map (g.withIri? ·.iri) = path.map some ∧
      t.children.map (g.withIri? ·.value.iri) = below.map some ∧
      (below.map (·.id)).Perm (g.narrowerIn path r)

/-- The concepts in the forest of every reachable graph have exactly the children that their places
demand. Where neither schemes nor collections are considered, there is hence one node for each root
and for each pair of a concept and a narrower one. -/
theorem children_exact (g : ResourceGraph) (hreach : Reachable g) (hapart : g.PrintsApart) :
    ∃ built stats, build g = .ok built ∧ g.checkedStats = .ok stats ∧
      built.forest.HasExactChildren g ∧
      (g.configuration.conceptSchemes = false → g.configuration.collections = false →
        built.forest.nodeCount = built.forest.length + stats.hierarchyEdges) := by
  have hsound := hreach.sound
  obtain ⟨built, hgrown, hplaced, hcovered⟩ := exists_build hsound
  refine ⟨built, g.stats, hgrown, g.checkedStats_eq, ?_, ?_⟩
  · intro above t hsituated howned hkind
    obtain ⟨path, hshows, htreePlaced⟩ := Placed.situated hplaced hsituated
    obtain ⟨r, below, hholds, hview, _, hback, hperm⟩ :=
      htreePlaced.below_owned hsound hapart howned hkind
    exact ⟨r, path, below, withIri?_eq hsound.indexed hapart hholds hview,
      hshows.map_withIri? hsound.indexed hapart, hback, hperm⟩
  · intro hschemes hcollections
    have hlengths : ∀ t ∈ built.forest.nodes, t.value.reference = false →
        t.children.length = narrowerCount g t.value.view := by
      intro t ht howned
      obtain ⟨above, hsituated⟩ := Tree.exists_situated ht
      obtain ⟨path, hshows, htreePlaced⟩ := Placed.situated hplaced hsituated
      -- what is owned has a kind
      have hlisted : t.value.view ∈ Forest.ownedViews built.forest :=
        List.mem_map_of_mem (List.mem_filter.2 ⟨ht, by simp [howned]⟩)
      obtain ⟨s, hs, heq⟩ := List.mem_map.1 ((hcovered hapart).mem_iff.1 hlisted)
      have hknown : t.value.view.kind.isKnown = true := by
        rw [← heq]
        exact (List.mem_filter.1 hs).2
      exact length_children_classic hsound hapart hschemes hcollections hshows.holds htreePlaced
        howned hknown
    have hchildren := sum_children (narrowerCount g) (leafReferences hplaced) hlengths
    have howned : (((built.forest.nodes.filter (!·.value.reference)).map (·.value.view)).map
        (narrowerCount g)).sum = ((knownViews g).map (narrowerCount g)).sum :=
      ((hcovered hapart).map (narrowerCount g)).sum_nat
    rw [Forest.nodeCount_eq, hchildren, howned, sum_narrowerCount hsound hapart]

/-- The graph of the same statements where schemes are not considered. -/
def smallHierarchy : ResourceGraph where
  configuration := {}
  resources := #[
    { id := 0, node := .iri "urn:a", kind := .concept, links := { narrower := .ofList [1] } },
    { id := 1, node := .iri "urn:b", kind := .concept, links := { broader := .ofList [0] } }]
  index := ⟨[(.iri "urn:a", 0), (.iri "urn:b", 1)]⟩
  counters := { triples := 3, ignored := 2 }

theorem smallHierarchy_reachable : Reachable smallHierarchy := by
  have htaken : (ResourceGraph.new {}).ingestAll smallStatements = .ok smallHierarchy := by
    decide +kernel
  exact (Reachable.new _).ingestAll htaken

theorem smallHierarchy_printsApart : smallHierarchy.PrintsApart := by
  show PrintApart _
  decide

theorem children_exact_small :
    (Reachable smallScheme ∧ smallScheme.PrintsApart ∧
      ∃ built, build smallScheme = .ok built ∧ built.forest.HasExactChildren smallScheme) ∧
    (Reachable smallHierarchy ∧ smallHierarchy.PrintsApart ∧
      ∃ built stats, build smallHierarchy = .ok built ∧ smallHierarchy.checkedStats = .ok stats ∧
        built.forest.nodeCount = built.forest.length + stats.hierarchyEdges) := by
  refine ⟨⟨smallScheme_reachable, smallScheme_printsApart, ?_⟩,
    ⟨smallHierarchy_reachable, smallHierarchy_printsApart, ?_⟩⟩
  · obtain ⟨built, _, hgrown, _, hexact, _⟩ :=
      children_exact smallScheme smallScheme_reachable smallScheme_printsApart
    exact ⟨built, hgrown, hexact⟩
  · obtain ⟨built, stats, hgrown, hdescribed, _, hcount⟩ :=
      children_exact smallHierarchy smallHierarchy_reachable smallHierarchy_printsApart
    exact ⟨built, stats, hgrown, hdescribed, hcount rfl rfl⟩

end Thesaurus
