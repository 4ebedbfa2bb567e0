import Thesaurus.Proofs.Forest.Positions
import Thesaurus.Proofs.Forest.References
import Thesaurus.Proofs.Graph.Members
import Thesaurus.Proofs.Graph.Mismatches

/-!
# Ordered collections, from statements to the forest

The list of an ordered collection becomes the order of its node's children, if its elements are just
the members that were stated. On the way schemes and nodes of unknown kind are dropped, ids change,
edges and siblings are sorted, and siblings may be ranked by notation; the listed order stays.

- `Ranking.placings_ranked`: listed siblings are not ranked.
- `sorted_listed`: sorting by notation moves no children of a collection with an order.
- `ordered_collections`: what the forest shows of an ordered collection.
-/

namespace Thesaurus

open Rdf (Node Triple)
open Traversal

/-! ## Ranking by notation -/

namespace Ranking

open Notation (Sorting)

variable {sorting : Sorting} {siblings f : Forest} {s t : Tree Entry}

/-- Siblings with positions keep their order, and get no ranks. -/
theorem placings_arrange (hpositioned : isPositioned siblings = true)
    (hranks : ∀ t ∈ siblings, t.value.notationRank = none) :
    (arrange sorting siblings).map (·.value.placing) = siblings.map (·.value.placing) := by
  unfold arrange
  rw [hpositioned]
  cases sorting.axis <;> rw [List.map_map] <;> refine List.map_congr_left fun t ht => ?_ <;>
    simp [mapRoot, inNotationOrder, inLabelOrder, Entry.placing, Entry.iri, hranks t ht]

/-- Ranking leaves listed siblings as they are listed. -/
theorem placings_ranked {iris : List String} (h : f.map (·.value.placing) = enumerated iris) :
    (ranked sorting f).map (·.value.placing) = enumerated iris := by
  have hvalues : (arrangeBelowEach sorting f).map (·.value.placing) = enumerated iris := by
    rw [arrangeBelowEach_eq_map, List.map_map, ← h]
    exact List.map_congr_left fun t _ => congrArg (·.value.placing) arrangeBelow_eq
  -- children with positions have no ranks, and so stay in their order
  have hlisted : ∀ t ∈ arrangeBelowEach sorting f, t.value.position.isSome = true ∧
      t.value.notationRank = none := by
    intro t ht
    have hmem : t.value.placing ∈ enumerated iris := hvalues ▸ List.mem_map_of_mem ht
    obtain ⟨⟨iri, i⟩, _, hplacing⟩ := List.mem_map.1 hmem
    have hposition : some i = t.value.position := congrArg (·.2.1) hplacing
    have hrank : none = t.value.notationRank := congrArg (·.2.2) hplacing
    exact ⟨hposition ▸ rfl, hrank.symm⟩
  rw [ranked]
  cases hsiblings : arrangeBelowEach sorting f with
  | nil =>
    have hnone : arrange sorting [] = [] := by
      refine List.eq_nil_iff_forall_not_mem.2 fun t ht => ?_
      obtain ⟨_, hs, _⟩ := exists_of_mem_arrange ht
      cases hs
    rw [hnone, ← hvalues, hsiblings]
  | cons t rest =>
    rw [← hsiblings, placings_arrange _ fun t ht => (hlisted t ht).2, hvalues]
    rw [hsiblings, isPositioned, List.any_cons, (hlisted t (hsiblings ▸ List.mem_cons_self)).1,
      Bool.true_or]

end Ranking

/-- Sorting by notation moves no children of a collection with an order. -/
theorem sorted_listed {g : ResourceGraph} (sorting : Option Notation.Sorting) {f : Forest}
    (h : ∀ t ∈ f.nodes, Listed g t) : ∀ t ∈ (sortedForest sorting f).1.nodes, Listed g t := by
  -- sorting changes ranks only, and none of those below an ordered collection
  have hranked : ∀ s, ∀ t ∈ Forest.nodes (Ranking.ranked s f), Listed g t := by
    intro s t ht
    obtain ⟨before, hmem, hranks⟩ := Ranking.exists_of_mem_nodes_ranked ht
    have hlisted := h before hmem
    constructor
    · intro r hholds howned hview hordered
      rw [hranks.children]
      exact Ranking.placings_ranked
        (hlisted.ordered r hholds (hranks.reference ▸ howned) (hranks.view ▸ hview) hordered)
    · intro r hholds howned hview hkind hunordered c hc
      rw [hranks.children] at hc
      obtain ⟨c', hc', hchild⟩ := Ranking.exists_of_mem_ranked hc
      have hbefore := hlisted.unordered r hholds (hranks.reference ▸ howned) (hranks.view ▸ hview)
        hkind hunordered c' hc'
      exact hchild.position.trans hbefore
  unfold sortedForest
  split
  · exact h
  · next s =>
    obtain ⟨_, happlied⟩ | ⟨_, _, happlied⟩ := Ranking.apply_cases s f
    · rw [happlied]
      exact hranked s
    · rw [happlied]
      exact h

/-! ## Collections of a finished graph -/

namespace ResourceGraph

variable {g : ResourceGraph} {n k : Node} {r : Resource} {i : ResourceId} {ids : List ResourceId}

/-- Where collections are shown, just the nodes of known kind are kept. -/
theorem keeps_eq_isKnown (h : Indexed g) (hshown : g.configuration.collections = true) :
    g.keeps n = (g.kindAt n).isKnown := by
  rw [keeps, kindAt]
  cases hn : g.lookup n with
  | none => rfl
  | some i =>
    obtain ⟨r, hr, _⟩ := lookup_eq_some h hn
    have hfilters : g.configuration.filtersByType = true := by
      rw [Configuration.filtersByType, hshown, Bool.or_true]
    rw [Option.any_some, Option.elim_some, hr, kindOf_eq hr, Option.any_some, retains, hfilters]
    rfl

/-- Nodes and ids show the same IRIs. -/
theorem map_iri (hlt : ∀ id ∈ ids, id < g.size) :
    ids.map (fun id => (g.viewOf id).iri) = (g.nodesOf ids).map (·.text) := by
  induction ids with
  | nil => rfl
  | cons id rest ih =>
    obtain ⟨r, hr⟩ := exists_resource (hlt id List.mem_cons_self)
    have hrest := ih fun j hj => hlt j (List.mem_cons_of_mem _ hj)
    rw [nodesOf_cons hr, List.map_cons, List.map_cons, hrest, viewOf, hr]
    rfl

end ResourceGraph

namespace Traversal

/-- Growing trees records no issues but cycles of the hierarchy. -/
theorem Phases.cycles {g : ResourceGraph} (ph : Phases g) (h : Sound g) (horders : g.OrdersExact)
    (hapart : g.PrintsApart) : ∀ i ∈ ph.atEnd.issues, i.kind = .hierarchyCycle := by
  have hcounts : Counts g (fun _ _ => false) fun _ p =>
      ∀ i ∈ p.issues, i.kind = .hierarchyCycle := by
    refine ⟨fun _ _ _ => rfl, fun _ hi => absurd hi List.not_mem_nil,
      fun _ _ _ hbefore => hbefore, ?_⟩
    intro n top below p e r _ _ _ hbefore i hi
    unfold Progress.refer at hi
    dsimp only at hi
    split at hi
    · rcases List.mem_append.1 hi with hi | hi
      · exact hbefore i hi
      · rw [List.mem_singleton.1 hi]
        rfl
    · exact hbefore i hi
  exact ph.counted hcounts h horders hapart

/-- The node that owns a resource of known kind. -/
theorem exists_owner {f : Forest} {v : View}
    (h : (Forest.ownedViews f).filter (·.iri == v.iri) = [v]) :
    ∃ t, f.nodes.filter (fun t => !t.value.reference && t.value.iri == v.iri) = [t] ∧
      t.value.view = v := by
  rw [Forest.ownedViews, List.filter_map, List.filter_filter] at h
  obtain ⟨t, hsingle, hview⟩ := List.map_eq_singleton_iff.1 h
  refine ⟨t, ?_, hview⟩
  rw [← hsingle]
  exact List.filter_congr fun t _ => Bool.and_comm ..

end Traversal

/-- The elements that are shown in a collection: those of known kind that are no schemes. -/
def ResourceGraph.shownElements (g : ResourceGraph) (elements : List Node) : List Node :=
  elements.filter fun e => (g.kindAt e).isKnown && g.kindAt e != .conceptScheme

/-- The order of an ordered collection in the finished graph: what is shown of its list if the list
is just that of the members, and none otherwise. -/
theorem ResourceGraph.order_completed {g : ResourceGraph} {k head : Node} (h : Sound g)
    (hunread : g.Unread) (hshown : g.configuration.collections = true)
    (hkind : g.kindAt k = .orderedCollection) (hhead : g.headAt k = some head) :
    ∃ r, g.completed.Holds r ∧ r.node = k ∧ r.kind = .orderedCollection ∧
      ((∀ e, e ∈ (g.cells.resolve k head).elements ↔ g.Relates .members k e) →
        r.hasOrder = true ∧ (Traversal.declared r).map (fun id => (g.completed.viewOf id).iri) =
          (g.shownElements (g.cells.resolve k head).elements).map (·.text)) ∧
      ((¬ ∀ e, e ∈ (g.cells.resolve k head).elements ↔ g.Relates .members k e) →
        r.hasOrder = false) := by
  have hkept : g.keeps k = true := by rw [keeps_eq_isKnown h.indexed hshown, hkind]; rfl
  have hsound := sound_completed h
  obtain ⟨i, hfound⟩ := Option.isSome_iff_exists.1 ((isSome_lookup_completed h).trans hkept)
  obtain ⟨r, hr, rfl⟩ := lookup_eq_some hsound.indexed hfound
  have hholds := holds_of_get hsound.indexed hr
  have hkind' : r.kind = .orderedCollection := by
    rw [← kindOf_eq hr, ← kindAt_eq hfound, kindAt_completed h, hkind]
  have horder : r.links.orderedMembers.map g.completed.nodesOf =
      (g.readMemberLists.orderAt r.node).map (g.shownElements ·) := by
    have hread := orderAt_completed h hkept
    rw [orderAt, hfound, Option.bind_some, linksOf_eq hr] at hread
    rw [hread]
    refine congrArg (Option.map · _) (funext fun elements => List.filter_congr fun e _ => ?_)
    rw [keeps_eq_isKnown h.indexed hshown, Bool.and_comm]
  refine ⟨r, hholds, rfl, hkind', fun hsame => ?_, fun hother => ?_⟩
  · have hread := (orderAt_readMemberLists h hunread).2 ⟨hkind, ⟨head, hhead, rfl⟩, hsame⟩
    rw [hread] at horder
    obtain ⟨ids, hordered, hnodes⟩ := Option.map_eq_some_iff.1 horder
    refine ⟨by simp [Resource.hasOrder, hkind', hordered], ?_⟩
    have hinside : ∀ id ∈ ids, id < g.completed.size := fun id hid =>
      hsound.member_lt (hsound.linked.ordered_member i ids (linksOf_eq hr ▸ hordered) id hid)
    rw [Traversal.declared, hordered, Option.getD_some, map_iri hinside, hnodes]
  · have hunread' : g.readMemberLists.orderAt r.node = none := by
      refine Option.eq_none_iff_forall_not_mem.2 fun elements hread => hother ?_
      obtain ⟨_, ⟨head', hhead', rfl⟩, hsame⟩ := (orderAt_readMemberLists h hunread).1 hread
      rw [hhead, Option.some.injEq] at hhead'
      exact hhead' ▸ hsame
    rw [hunread', Option.map_none, Option.map_eq_none_iff] at horder
    simp [Resource.hasOrder, horder]

/-- What the forest shows of an ordered collection with a member list, where collections are shown
and no two nodes print alike. If the elements of the list are just the members that were stated, the
children of its node are these elements, in the order of the list, as far as they have a known kind
and are no schemes; their positions have no gaps, and they have no ranks. If not, just one issue is
recorded for that, and no child has a position. -/
theorem ordered_collections (c : Configuration) (triples : List Triple)
    (hvalid : c.validate = .ok ()) (hshown : c.collections = true)
    (hapart : PrintApart (triples.flatMap mentioned)) :
    ∃ g outcome, (ResourceGraph.new c).ingestAll triples = .ok g ∧
      transform c triples = .ok outcome ∧
      ∀ k head, g.kindAt k = .orderedCollection → g.headAt k = some head →
        ∃ t, outcome.forest.nodes.filter (fun t => !t.value.reference && t.value.iri == k.text) =
            [t] ∧
          ((∀ e, e ∈ (g.cells.resolve k head).elements ↔ memberStatement k e ∈ triples) →
            t.children.map (·.value.placing) =
                enumerated ((g.shownElements (g.cells.resolve k head).elements).map (·.text)) ∧
              outcome.issues.countP (Issue.isMismatchOf k) = 0) ∧
          ((¬ ∀ e, e ∈ (g.cells.resolve k head).elements ↔ memberStatement k e ∈ triples) →
            (∀ child ∈ t.children, child.value.position = none) ∧
              outcome.issues.countP (Issue.isMismatchOf k) = 1) := by
  obtain ⟨g, htaken, hsound, hconfigured, hopen, _⟩ :=
    ResourceGraph.exists_ingestAll triples (Sound.new c) rfl
  have hfinished := ResourceGraph.finish_eq hopen
  have hreachable := (Reachable.new c).ingestAll htaken
  have horders := (hreachable.finish hfinished).ordersExact
  have hsoundFinished := ResourceGraph.sound_completed hsound
  have hapart' := ResourceGraph.printsApart_completed htaken hapart
  have hstated := ResourceGraph.ingestAll_membersStated hshown htaken
  have hshown' : g.configuration.collections = true := hconfigured ▸ hshown
  obtain ⟨ph⟩ := exists_phases hsoundFinished
  have hlisted := sorted_listed g.completed.configuration.notationSort
    (ph.listed hsoundFinished horders hapart')
  have howned := (sortedForest_alike g.completed.configuration.notationSort
    (sortSiblings ph.trees)).ownedViews_perm
  refine ⟨g, _, htaken, transform_eq hvalid htaken hopen hfinished (ph.build_eq hsoundFinished),
    fun k head hkind hhead => ?_⟩
  obtain ⟨r, hholds, rfl, hkind', hordered, hunordered⟩ :=
    ResourceGraph.order_completed hsound (hreachable.lists.2.2 hopen) hshown' hkind hhead
  -- the sorted forest owns the view of the collection once, so that a single node shows it
  have honce : (Forest.ownedViews (sortedForest g.completed.configuration.notationSort
      (sortSiblings ph.trees)).1).filter (·.iri == r.view.iri) = [r.view] := by
    have hbefore := ph.owned_once hsoundFinished hapart' hholds (by rw [hkind']; rfl)
    exact List.perm_singleton.1 (hbefore ▸ howned.filter _)
  obtain ⟨t, hsingle, hview⟩ := exists_owner honce
  have hmem := List.mem_filter.1 (hsingle ▸ List.mem_singleton_self t)
  have hownedNode : t.value.reference = false := by
    have hboth := hmem.2
    rw [Bool.and_eq_true, Bool.not_eq_true'] at hboth
    exact hboth.1
  have hmembers : ∀ e, memberStatement r.node e ∈ triples ↔ g.Relates .members r.node e := fun e =>
    (hstated.relates_iff (by rw [hkind]; rfl)).symm
  -- what is found while the forest is built are cycles, and so no mismatches
  have hothers : ph.atEnd.issues.countP (Issue.isMismatchOf r.node) = 0 :=
    ResourceGraph.countP_other fun i hi => by
      rw [ph.cycles hsoundFinished horders hapart' i hi]
      decide
  simp only [hmembers]
  refine ⟨t, hsingle, fun hsame => ⟨?_, ?_⟩, fun hother => ⟨?_, ?_⟩⟩
  · obtain ⟨hhasOrder, hiris⟩ := hordered hsame
    rw [(hlisted t hmem.1).ordered r hholds hownedNode hview hhasOrder, hiris]
  · classical
    rw [List.countP_append, hothers, ResourceGraph.countP_mismatches hsound hstated.quiet hkind
      hhead, if_pos hsame]
  · exact (hlisted t hmem.1).unordered r hholds hownedNode hview (by rw [hkind']; rfl)
      (hunordered hother)
  · classical
    rw [List.countP_append, hothers, ResourceGraph.countP_mismatches hsound hstated.quiet hkind
      hhead, if_neg hother]

/-- Statements about two ordered collections. The list of the first agrees with its members, one of
which is a scheme; that of the second does not. -/
def orderedStatements : List Triple := [
  ⟨.iri "urn:k", "http://www.w3.org/2004/02/skos/core#memberList", .node (.iri "urn:k1")⟩,
  ⟨.iri "urn:k1", "http://www.w3.org/1999/02/22-rdf-syntax-ns#first", .node (.iri "urn:b")⟩,
  ⟨.iri "urn:k1", "http://www.w3.org/1999/02/22-rdf-syntax-ns#rest", .node (.iri "urn:k2")⟩,
  ⟨.iri "urn:k2", "http://www.w3.org/1999/02/22-rdf-syntax-ns#first", .node (.iri "urn:s")⟩,
  ⟨.iri "urn:k2", "http://www.w3.org/1999/02/22-rdf-syntax-ns#rest", .node (.iri "urn:m1")⟩,
  ⟨.iri "urn:m1", "http://www.w3.org/1999/02/22-rdf-syntax-ns#first", .node (.iri "urn:a")⟩,
  ⟨.iri "urn:m1", "http://www.w3.org/1999/02/22-rdf-syntax-ns#rest",
    .node (.iri "http://www.w3.org/1999/02/22-rdf-syntax-ns#nil")⟩,
  ⟨.iri "urn:k", "http://www.w3.org/2004/02/skos/core#member", .node (.iri "urn:b")⟩,
  ⟨.iri "urn:k", "http://www.w3.org/2004/02/skos/core#member", .node (.iri "urn:s")⟩,
  ⟨.iri "urn:k", "http://www.w3.org/2004/02/skos/core#member", .node (.iri "urn:a")⟩,
  ⟨.iri "urn:m", "http://www.w3.org/2004/02/skos/core#memberList", .node (.iri "urn:m1")⟩,
  ⟨.iri "urn:m", "http://www.w3.org/2004/02/skos/core#member", .node (.iri "urn:b")⟩,
  ⟨.iri "urn:a", "http://www.w3.org/2004/02/skos/core#broader", .node (.iri "urn:b")⟩,
  ⟨.iri "urn:a", "http://www.w3.org/2004/02/skos/core#topConceptOf", .node (.iri "urn:s")⟩]

theorem ordered_collections_listed :
    Configuration.validate { conceptSchemes := true, collections := true } = .ok () ∧
    PrintApart (orderedStatements.flatMap mentioned) ∧
    ∃ outcome, transform { conceptSchemes := true, collections := true } orderedStatements =
        .ok outcome ∧
      (∃ t, outcome.forest.nodes.filter
          (fun t => !t.value.reference && t.value.iri == "urn:k") = [t] ∧
        t.children.map (·.value.placing) =
          [("urn:b", some 0, none), ("urn:a", some 1, none)]) ∧
      outcome.issues.countP (Issue.isMismatchOf (.iri "urn:m")) = 1 := by
  have hvalid : Configuration.validate { conceptSchemes := true, collections := true } = .ok () :=
    rfl
  have hapart : PrintApart (orderedStatements.flatMap mentioned) := by decide +kernel
  obtain ⟨g, outcome, htaken, htransformed, hshows⟩ :=
    ordered_collections { conceptSchemes := true, collections := true } orderedStatements hvalid rfl
      hapart
  have hread : ∀ {α : Type} {a : α} (f : ResourceGraph → α),
      ((ResourceGraph.new { conceptSchemes := true, collections := true }).ingestAll
        orderedStatements).map f = .ok a → f g = a := by
    intro α a f hmapped
    rw [htaken] at hmapped
    exact Except.ok.inj hmapped
  have hkindK : g.kindAt (.iri "urn:k") = .orderedCollection :=
    hread (·.kindAt (.iri "urn:k")) (by decide +kernel)
  have headK : g.headAt (.iri "urn:k") = some (.iri "urn:k1") :=
    hread (·.headAt (.iri "urn:k")) (by decide +kernel)
  have helementsK : (g.cells.resolve (.iri "urn:k") (.iri "urn:k1")).elements =
      [.iri "urn:b", .iri "urn:s", .iri "urn:a"] :=
    hread (fun g => (g.cells.resolve (.iri "urn:k") (.iri "urn:k1")).elements) (by decide +kernel)
  have hshownK : g.shownElements [.iri "urn:b", .iri "urn:s", .iri "urn:a"] =
      [.iri "urn:b", .iri "urn:a"] :=
    hread (·.shownElements [.iri "urn:b", .iri "urn:s", .iri "urn:a"]) (by decide +kernel)
  have hkindM : g.kindAt (.iri "urn:m") = .orderedCollection :=
    hread (·.kindAt (.iri "urn:m")) (by decide +kernel)
  have headM : g.headAt (.iri "urn:m") = some (.iri "urn:m1") :=
    hread (·.headAt (.iri "urn:m")) (by decide +kernel)
  have helementsM : (g.cells.resolve (.iri "urn:m") (.iri "urn:m1")).elements = [.iri "urn:a"] :=
    hread (fun g => (g.cells.resolve (.iri "urn:m") (.iri "urn:m1")).elements) (by decide +kernel)
  obtain ⟨t, hsingle, hlisted, _⟩ := hshows _ _ hkindK headK
  obtain ⟨_, _, _, hunlisted⟩ := hshows _ _ hkindM headM
  refine ⟨hvalid, hapart, outcome, htransformed, ⟨t, hsingle, ?_⟩, (hunlisted fun hsame => ?_).2⟩
  · rw [helementsK, hshownK] at hlisted
    refine (hlisted fun e => ?_).1
    simp [orderedStatements, memberStatement]
  · rw [helementsM] at hsame
    have hmember : memberStatement (.iri "urn:m") (.iri "urn:b") ∈ orderedStatements := by
      decide +kernel
    simpa using (hsame (.iri "urn:b")).2 hmember

end Thesaurus
