import Thesaurus.Proofs.Graph.Agreement
import Thesaurus.Proofs.Graph.Renaming
import Thesaurus.Proofs.Graph.Texts

/-!
# Counterparts

Graphs that cannot be told apart through nodes hold the same resources, though under other ids: one
of them renames the other.

- `counterpart`: the id of the same node in the other graph.
- `Mirrors.pairing`: counterparts go together, as a renaming of ids.
- `Mirrors.renames`: the other graph holds the renamed resources.
- `ResourceGraph.exists_renames`: streams with the same statements, in which texts have the same
  order, lead to graphs of which one renames the other.
-/

namespace Thesaurus

open Rdf (Node Triple)

attribute [ext] Resource

/-- The id that the node of a resource has in another graph. Ids without a resource are their own
counterparts. -/
def counterpart (g g' : ResourceGraph) (id : ResourceId) : ResourceId :=
  (g.resources[id]?.bind fun r => g'.lookup r.node).getD id

section Pairs

variable {g g' : ResourceGraph} {i j : ResourceId} {n : Node} {r : Resource}

theorem counterpart_eq (hr : g.resources[i]? = some r) (hj : g'.lookup r.node = some j) :
    counterpart g g' i = j := by
  simp [counterpart, hr, hj]

theorem counterpart_of_size_le (h : g.size ≤ i) : counterpart g g' i = i := by
  simp [counterpart, ResourceGraph.get_of_size_le h]

theorem Indexed.nodup_nodes (h : Indexed g) : (g.resources.toList.map (·.node)).Nodup := by
  refine List.pairwise_iff_getElem.2 fun i j hi hj hij hsame => ?_
  rw [List.length_map] at hi hj
  rw [List.getElem_map, List.getElem_map] at hsame
  have hinside : ∀ {i} (hi : i < g.resources.toList.length),
      g.resources[i]? = some g.resources.toList[i] := by
    intro i hi
    rw [← Array.getElem?_toList, List.getElem?_eq_getElem hi]
  exact absurd (h.node_inj i j _ _ (hinside hi) (hinside hj) hsame) (Nat.ne_of_lt hij)

theorem mem_nodes_iff (h : Sound g) :
    n ∈ g.resources.toList.map (·.node) ↔ (g.lookup n).isSome = true := by
  rw [List.mem_map, Option.isSome_iff_exists]
  constructor
  · rintro ⟨r, hr, rfl⟩
    obtain ⟨i, hi⟩ := ResourceGraph.mem_resources_iff.1 hr
    exact ⟨i, ResourceGraph.lookup_node h.indexed hi⟩
  · rintro ⟨i, hi⟩
    obtain ⟨r, hr, hsame⟩ := ResourceGraph.lookup_eq_some h.indexed hi
    exact ⟨r, ResourceGraph.mem_resources_iff.2 ⟨i, hr⟩, hsame⟩

/-- Graphs with resources for the same nodes have as many of them. -/
theorem size_eq_of_found (h : Sound g) (h' : Sound g')
    (hfound : ∀ n, (g'.lookup n).isSome = (g.lookup n).isSome) : g'.size = g.size := by
  have hperm : (g'.resources.toList.map (·.node)).Perm (g.resources.toList.map (·.node)) := by
    refine (List.perm_ext_iff_of_nodup h'.indexed.nodup_nodes h.indexed.nodup_nodes).2 fun n => ?_
    rw [mem_nodes_iff h', mem_nodes_iff h, hfound]
  simpa [ResourceGraph.size] using hperm.length_eq

/-- Whoever goes to the counterpart and back is where he was. -/
theorem counterpart_counterpart (h : Sound g) (h' : Sound g')
    (hfound : ∀ n, (g'.lookup n).isSome = (g.lookup n).isSome) (i : ResourceId) :
    counterpart g' g (counterpart g g' i) = i := by
  by_cases hinside : i < g.size
  · obtain ⟨r, hr⟩ := ResourceGraph.exists_resource hinside
    have hknown : (g'.lookup r.node).isSome = true := by
      rw [hfound, ResourceGraph.lookup_node h.indexed hr]
      rfl
    obtain ⟨j, hj⟩ := Option.isSome_iff_exists.1 hknown
    obtain ⟨s, hs, hsame⟩ := ResourceGraph.lookup_eq_some h'.indexed hj
    rw [counterpart_eq hr hj]
    exact counterpart_eq hs (hsame ▸ ResourceGraph.lookup_node h.indexed hr)
  · have houtside := Nat.le_of_not_lt hinside
    rw [counterpart_of_size_le houtside]
    exact counterpart_of_size_le (size_eq_of_found h h' hfound ▸ houtside)

/-- Reading nodes off ids and looking them up in another graph gives their ids there. -/
theorem lookups_nodesOf {ids : List ResourceId} {newId : ResourceId → ResourceId}
    (h : ∀ i ∈ ids, ∃ r, g.resources[i]? = some r ∧ g'.lookup r.node = some (newId i)) :
    (g.nodesOf ids).filterMap g'.lookup = ids.map newId := by
  induction ids with
  | nil => rfl
  | cons i rest ih =>
    obtain ⟨r, hr, hfound⟩ := h i List.mem_cons_self
    rw [ResourceGraph.nodesOf_cons hr, List.filterMap_cons, hfound, List.map_cons,
      ih fun j hj => h j (List.mem_cons_of_mem _ hj)]

end Pairs

theorem Links.ext_along {l l' : Links} (halong : ∀ tie, l.along tie = l'.along tie)
    (hmemberList : l.memberList = l'.memberList)
    (horderedMembers : l.orderedMembers = l'.orderedMembers) : l = l' := by
  have hbroader := halong .broader
  have hnarrower := halong .narrower
  have hmembers := halong .members
  have hinSchemes := halong .inSchemes
  have hinCollections := halong .inCollections
  have hschemeMembers := halong .schemeMembers
  have htopConcepts := halong .topConcepts
  cases l
  cases l'
  simp_all [Links.along]

namespace Mirrors

open ResourceGraph

variable {g g' : ResourceGraph} {i j : ResourceId} {n : Node} {r s : Resource} {tie : Tie}

/-- Counterparts go together. -/
def pairing (h : Mirrors g g') (hsound : Sound g) (hsound' : Sound g') :
    ResourceId ≃ ResourceId where
  toFun := counterpart g g'
  invFun := counterpart g' g
  left_inv := counterpart_counterpart hsound hsound' h.found
  right_inv := counterpart_counterpart hsound' hsound fun n => (h.found n).symm

variable (h : Mirrors g g') (hsound : Sound g) (hsound' : Sound g')

include h hsound hsound' in
/-- A resource has a counterpart for its node. -/
theorem exists_counterpart (hr : g.resources[i]? = some r) : ∃ s,
    g'.resources[counterpart g g' i]? = some s ∧ s.node = r.node ∧
      g'.lookup r.node = some (counterpart g g' i) := by
  have hknown : (g'.lookup r.node).isSome = true := by
    rw [h.found, lookup_node hsound.indexed hr]
    rfl
  obtain ⟨j, hj⟩ := Option.isSome_iff_exists.1 hknown
  obtain ⟨s, hs, hsame⟩ := lookup_eq_some hsound'.indexed hj
  rw [counterpart_eq hr hj]
  exact ⟨s, hs, hsame, hj⟩

include h hsound hsound' in
/-- Counterparts are related in the same ways. -/
theorem along_counterpart (hr : g.resources[i]? = some r) :
    (g'.linksOf (counterpart g g' i)).along tie =
      ((g.linksOf i).along tie).filterMap fun id => some (counterpart g g' id) := by
  obtain ⟨_, _, _, hi'⟩ := h.exists_counterpart hsound hsound' hr
  have hi := lookup_node hsound.indexed hr
  refine IdSet.ext fun j' => ?_
  rw [IdSet.mem_filterMap]
  constructor
  · intro hmem
    obtain ⟨s', hs'⟩ := exists_of_mem_along hsound' hmem
    have hj' := lookup_node hsound'.indexed hs'
    have hrelated := (h.relates tie r.node s'.node).1 ((relates_iff hi' hj').2 hmem)
    obtain ⟨_, j, _, hj, _⟩ := id hrelated
    obtain ⟨s, hs, hsame⟩ := lookup_eq_some hsound.indexed hj
    refine ⟨j, (relates_iff hi hj).1 hrelated, ?_⟩
    rw [counterpart_eq hs (hsame ▸ hj')]
  · rintro ⟨j, hmem, hsame⟩
    obtain ⟨s, hs⟩ := exists_of_mem_along hsound hmem
    obtain ⟨_, _, _, hj'⟩ := h.exists_counterpart hsound hsound' hs
    rw [Option.some.injEq] at hsame
    rw [hsame] at hj'
    exact (relates_iff hi' hj').1
      ((h.relates tie r.node s.node).2 ((relates_iff hi (lookup_node hsound.indexed hs)).2 hmem))

include h hsound hsound' in
/-- Counterparts have the same links, renamed. -/
theorem links_counterpart (hr : g.resources[i]? = some r) :
    g'.linksOf (counterpart g g' i) =
      (g.linksOf i).rename fun id => some (counterpart g g' id) := by
  have hi := lookup_node hsound.indexed hr
  obtain ⟨_, _, _, hi'⟩ := h.exists_counterpart hsound hsound' hr
  refine Links.ext_along (fun tie => ?_) ?_ ?_
  · rw [h.along_counterpart hsound hsound' hr, Links.along_rename]
  · have hheads := h.headAt r.node
    rwa [ResourceGraph.headAt, ResourceGraph.headAt, hi, hi'] at hheads
  · have horders := h.orderAt r.node
    rw [ResourceGraph.orderAt, ResourceGraph.orderAt, hi, hi', Option.bind_some,
      Option.bind_some] at horders
    show (g'.linksOf _).orderedMembers = (g.linksOf i).orderedMembers.map
      (·.filterMap fun id => some (counterpart g g' id))
    have hrenamed : (fun ids : List ResourceId => ids.filterMap fun id =>
        some (counterpart g g' id)) = List.map (counterpart g g') :=
      funext fun ids => congrFun List.filterMap_eq_map ids
    rw [hrenamed]
    cases horder : (g.linksOf i).orderedMembers with
    | none =>
      rw [horder, Option.map_none, Option.map_eq_none_iff] at horders
      rw [horders, Option.map_none]
    | some ids =>
      rw [horder, Option.map_some, Option.map_eq_some_iff] at horders
      obtain ⟨ids', horder', hsame⟩ := horders
      -- both orders are compared by the nodes that they list
      have hlookups : (g.nodesOf ids).filterMap g'.lookup = ids.map (counterpart g g') := by
        refine lookups_nodesOf fun j hj => ?_
        obtain ⟨s, hs⟩ := exists_resource
          (hsound.member_lt (hsound.linked.ordered_member i ids horder j hj))
        obtain ⟨_, _, _, hfound⟩ := h.exists_counterpart hsound hsound' hs
        exact ⟨s, hs, hfound⟩
      have hlookups' : (g'.nodesOf ids').filterMap g'.lookup = ids'.map id := by
        refine lookups_nodesOf fun j hj => ?_
        obtain ⟨s, hs⟩ := exists_resource
          (hsound'.member_lt (hsound'.linked.ordered_member _ ids' horder' j hj))
        exact ⟨s, hs, lookup_node hsound'.indexed hs⟩
      rw [List.map_id, hsame, hlookups] at hlookups'
      rw [horder', ← hlookups', Option.map_some]

/-- The other graph holds the renamed resources. -/
theorem renames (hconfiguration : g'.configuration = g.configuration)
    (hshown : ∀ n, (g.lookup n).isSome = true → g'.shownAt n = g.shownAt n) :
    Renames (h.pairing hsound hsound') g g' where
  configuration := hconfiguration
  get := by
    intro i
    show g'.resources[counterpart g g' i]? = _
    -- inside, the counterpart stands for the same node; outside there is nothing on either side
    by_cases hinside : i < g.size
    · obtain ⟨r, hr⟩ := exists_resource hinside
      obtain ⟨s, hs, hnode, hi'⟩ := h.exists_counterpart hsound hsound' hr
      have hi := lookup_node hsound.indexed hr
      rw [hr, hs, Option.map_some]
      congr 1
      have hkind := h.kindAt r.node
      rw [kindAt_eq hi, kindAt_eq hi', kindOf_eq hr, kindOf_eq hs] at hkind
      have hshown' := hshown r.node (by rw [hi]; rfl)
      rw [shownAt_eq hi hr, shownAt_eq hi' hs] at hshown'
      have hlinks := h.links_counterpart hsound hsound' hr
      rw [linksOf_eq hr, linksOf_eq hs] at hlinks
      have hid : s.id = counterpart g g' r.id := by
        rw [hsound'.indexed.id_eq _ s hs, hsound.indexed.id_eq i r hr]
      exact Resource.ext hid hnode hkind (congrArg Prod.fst hshown') (congrArg Prod.snd hshown')
        hlinks
    · have houtside := Nat.le_of_not_lt hinside
      have hsize := size_eq_of_found hsound hsound' h.found
      rw [get_of_size_le houtside, counterpart_of_size_le houtside,
        get_of_size_le (hsize ▸ houtside)]
      rfl

end Mirrors

namespace ResourceGraph

variable {c : Configuration} {triples others : List Triple} {g g' f f' : ResourceGraph} {n : Node}
  {j : ResourceId}

/-- Finishing a graph leaves what is shown of the nodes that are kept. -/
theorem shownAt_completed (h : Sound g) (hn : g.completed.lookup n = some j) :
    g.completed.shownAt n = g.shownAt n := by
  obtain ⟨r', hr', rfl⟩ := lookup_eq_some (sound_completed h).indexed hn
  have hbare : r'.bare ∈ (g.resources.toList.filter g.retains).map Resource.bare := by
    rw [← retained_completed h]
    exact List.mem_map_of_mem (mem_resources_iff.2 ⟨j, hr'⟩)
  obtain ⟨r, hmem, hsame⟩ := List.mem_map.1 hbare
  obtain ⟨i, hr⟩ := mem_resources_iff.1 (List.mem_filter.1 hmem).1
  have hnode : r.bare.node = r'.bare.node := by rw [hsame]
  have hshown : (r.bare.url, r.bare.texts) = (r'.bare.url, r'.bare.texts) := by rw [hsame]
  have hfound : g.lookup r'.node = some i := by
    rw [← show r.node = r'.node from hnode]
    exact lookup_node h.indexed hr
  rw [shownAt_eq hn hr', shownAt_eq hfound hr]
  exact hshown.symm

/-- Streams with the same statements, in which texts have the same order, lead to graphs of which
one renames the other, if one records no conflict. -/
theorem exists_renames (hsame : ∀ t, t ∈ others ↔ t ∈ triples)
    (htexts : others.filter givesText = triples.filter givesText)
    (htaken : (new c).ingestAll triples = .ok g) (htaken' : (new c).ingestAll others = .ok g')
    (hquiet : ¬ g.Conflicted) : ∃ σ, Renames σ g.completed g'.completed := by
  have hsound := ((Reachable.new c).ingestAll htaken).sound
  have hsound' := ((Reachable.new c).ingestAll htaken').sound
  obtain ⟨hconfiguration, _⟩ := ingestAll_keeps htaken
  obtain ⟨hconfiguration', _⟩ := ingestAll_keeps htaken'
  have hmirrors := mirrors_completed hsame htaken htaken' hquiet
  have hconfigured : g'.completed.configuration = g.completed.configuration := by
    rw [configuration_completed, configuration_completed, hconfiguration', hconfiguration]
  refine ⟨_, hmirrors.renames (sound_completed hsound) (sound_completed hsound') hconfigured
    fun n hn => ?_⟩
  obtain ⟨i, hi⟩ := Option.isSome_iff_exists.1 hn
  obtain ⟨j, hj⟩ := Option.isSome_iff_exists.1 ((hmirrors.found n).trans hn)
  rw [shownAt_completed hsound hi, shownAt_completed hsound' hj, shownAt_ingestAll htaken,
    shownAt_ingestAll htaken', textsOf_congr htexts]

end ResourceGraph

end Thesaurus
