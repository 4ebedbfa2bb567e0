import Thesaurus.Proofs.Graph.Lists
import Thesaurus.Proofs.Graph.Restriction

/-!
# Graphs without schemes and collections

When a graph in which nothing is known but concepts is finished, at most its resources of unknown
kind are left out. The others keep their order, and what their ids had to do with each other.

- `ResourceGraph.IsPlain`: whether only concepts are known.
- `ResourceGraph.IsPlain.completed`: finishing a plain graph only freezes it.
- `Carries`: whether one graph has the known resources of another, in their order.
- `ResourceGraph.carries_freeze`: freezing a graph carries its known resources over.
-/

namespace Thesaurus

namespace ResourceGraph

variable {g : ResourceGraph} {r : Resource}

/-! ## Plain graphs -/

/-- Whether nothing is known but concepts. -/
def IsPlain (g : ResourceGraph) : Prop :=
  ∀ id, (g.kindOf id).isKnown = true → g.kindOf id = .concept

/-- Where neither schemes nor collections are considered, there are none. -/
theorem isPlain_of_neither (h : Sound g) (hschemes : g.configuration.conceptSchemes = false)
    (hcollections : g.configuration.collections = false) : g.IsPlain := by
  intro id hknown
  have hconsidered := h.considered id
  cases hkind : g.kindOf id <;> rw [hkind] at hconsidered hknown <;>
    simp_all [Configuration.considersKind, Kind.isKnown]

theorem IsPlain.kind (h : g.IsPlain) (hr : r ∈ g.resources.toList) :
    r.kind = .concept ∨ r.kind = .unknown := by
  obtain ⟨i, hi⟩ := mem_resources_iff.1 hr
  have hconcept := h i
  rw [kindOf_eq hi] at hconcept
  by_cases hknown : r.kind.isKnown = true
  · exact .inl (hconcept hknown)
  · cases hkind : r.kind <;> simp_all [Kind.isKnown]

/-- There are no member lists to be read. -/
theorem IsPlain.readMemberLists (h : g.IsPlain) : g.readMemberLists = g := by
  have hnone : ∀ r ∈ g.resources.toList, g.memberOrder? r = none := by
    intro r hr
    rw [memberOrder?, if_neg]
    rcases h.kind hr with hkind | hkind <;> simp [hkind]
  have hresources : g.readMemberLists.resources = g.resources := by
    refine Array.ext_getElem? fun i => ?_
    rw [get_readMemberLists]
    cases hi : g.resources[i]? with
    | none => rfl
    | some r =>
      refine congrArg some ?_
      unfold withOrder
      rw [hnone r (mem_resources_iff.2 ⟨i, hi⟩)]
  have hissues : g.readMemberLists.issues = g.issues := by
    have hquiet :
        (g.resources.toList.flatMap fun r => (g.memberOrder? r).elim [] (·.issues)) = [] :=
      List.flatMap_eq_nil_iff.2 fun r hr => by rw [hnone r hr]; rfl
    show g.issues ++ _ = _
    rw [hquiet, List.append_nil]
  show ({ g with resources := g.readMemberLists.resources, issues := g.readMemberLists.issues } :
    ResourceGraph) = g
  rw [hresources, hissues]

/-- There are no schemes to be dropped. -/
theorem IsPlain.dropSchemes (h : g.IsPlain) : g.dropSchemesFromCollections = g := by
  have hresources : g.dropSchemesFromCollections.resources = g.resources := by
    refine Array.ext_getElem? fun i => ?_
    show (g.resources.map fun r => { r with links := g.linksWithoutSchemes r })[i]? = _
    rw [Array.getElem?_map]
    cases hi : g.resources[i]? with
    | none => rfl
    | some r =>
      have hlinks : g.linksWithoutSchemes r = r.links := by
        unfold linksWithoutSchemes
        rcases h.kind (mem_resources_iff.2 ⟨i, hi⟩) with hkind | hkind <;>
          simp [hkind, Kind.isCollection]
      rw [Option.map_some, hlinks]
  have hissues : g.dropSchemesFromCollections.issues = g.issues := by
    have hquiet : g.resources.toList.flatMap g.schemeMemberIssues = [] := by
      refine List.flatMap_eq_nil_iff.2 fun r hr => ?_
      unfold schemeMemberIssues
      rcases h.kind hr with hkind | hkind <;> simp [hkind, Kind.isCollection]
    show g.issues ++ _ = _
    rw [hquiet, List.append_nil]
  show ({ g with
    resources := g.dropSchemesFromCollections.resources
    issues := g.dropSchemesFromCollections.issues } : ResourceGraph) = g
  rw [hresources, hissues]

/-- There are no top concepts to be checked. -/
theorem IsPlain.checkTopConcepts (h : g.IsPlain) : g.checkTopConcepts = g := by
  have hquiet : g.resources.toList.flatMap g.topConceptIssues = [] := by
    refine List.flatMap_eq_nil_iff.2 fun r hr => ?_
    unfold topConceptIssues
    rcases h.kind hr with hkind | hkind <;> simp [hkind]
  show ({ g with issues := g.issues ++ _ } : ResourceGraph) = g
  rw [hquiet, List.append_nil]

theorem IsPlain.freeze (h : g.IsPlain) (hg : Sound g) : g.freeze.IsPlain := by
  intro id hknown
  obtain ⟨r', hr'⟩ := exists_resource (lt_size_of_isKnown hknown)
  obtain ⟨i, r, hr, _, rfl⟩ := (get_freeze hg).1 hr'
  rw [kindOf_eq hr'] at hknown ⊢
  have hconcept := h i
  rw [kindOf_eq hr] at hconcept
  exact hconcept hknown

/-- Finishing a plain graph only freezes it. -/
theorem IsPlain.completed (h : g.IsPlain) (hg : Sound g) : g.completed = g.freeze := by
  rw [ResourceGraph.completed, h.readMemberLists, h.dropSchemes, (h.freeze hg).checkTopConcepts]

end ResourceGraph

/-! ## Leaving resources out -/

/-- A set with the images of another is listed in the order of that one, if the map ascends. -/
theorem IdSet.toList_eq_map {s t : IdSet} {σ : ResourceId → ResourceId}
    (hmem : ∀ id, id ∈ t ↔ ∃ old ∈ s, σ old = id)
    (hascending : ∀ i ∈ s, ∀ j ∈ s, i < j → σ i < σ j) : t.toList = s.toList.map σ := by
  have hascending' : (s.toList.map σ).Pairwise (· < ·) :=
    List.pairwise_map.2 (s.ascending.imp_of_mem fun hi hj hless => hascending _ hi _ hj hless)
  exact IdSet.eq_of_mem_iff t.ascending hascending' fun id => by
    rw [List.mem_map]
    exact hmem id

/-- Whether a graph has the resources of known kind of another in their order. They are moved to new
ids, which their broader and narrower concepts get as well, and keep all that does not depend on
ids. -/
structure Carries (σ : ResourceId → ResourceId) (move : Resource → Resource)
    (g g' : ResourceGraph) : Prop where
  known : g'.resources.toList.filter (·.kind.isKnown) =
    (g.resources.toList.filter (·.kind.isKnown)).map move
  id : ∀ r, (move r).id = σ r.id
  bare : ∀ r, (move r).bare = r.bare
  narrower : ∀ r ∈ g.resources.toList,
    (move r).links.narrower.toList = r.links.narrower.toList.map σ
  broader : ∀ r ∈ g.resources.toList,
    (move r).links.broader.toList = r.links.broader.toList.map σ
  ascending : ∀ i j, (g.kindOf i).isKnown = true → (g.kindOf j).isKnown = true → i < j → σ i < σ j

namespace ResourceGraph

variable {g : ResourceGraph}

/-- Later resources have larger new ids. -/
theorem newId_lt {i j i' j' : ResourceId} (hi : g.newId i = some i') (hj : g.newId j = some j')
    (hij : i < j) : i' < j' := by
  obtain ⟨r, hr, hknown, rfl⟩ := newId_eq_some.1 hi
  obtain ⟨_, _, _, rfl⟩ := newId_eq_some.1 hj
  exact count_take_lt hij (by simp [hr, hknown])

/-- A frozen graph has the known resources in their order. -/
theorem known_freeze (h : Sound g) : g.freeze.resources.toList.filter (·.kind.isKnown) =
    (g.resources.toList.filter (·.kind.isKnown)).map fun r =>
      g.moved ((g.finalId r.id).getD 0) r := by
  by_cases hfilters : g.configuration.filtersByType = true
  · have hclosed : g.prune.closed.resources = g.prune.resources := rfl
    have hfinal : g.finalId = g.newId := by
      funext id
      rw [finalId, if_pos hfilters]
    rw [freeze_eq, if_pos hfilters, hclosed, toList_prune h, List.filter_map, List.filter_filter]
    simp only [moved, hfinal]
    refine congrArg (List.map _) (List.filter_congr fun r _ => ?_)
    exact Bool.and_self _
  · have hfinal : g.finalId = some := by
      funext id
      rw [finalId, if_neg hfilters]
    have hsame : (fun r => g.moved ((g.finalId r.id).getD 0) r) = id := by
      funext r
      rw [moved, hfinal, rename_some]
      rfl
    rw [freeze_eq, if_neg hfilters, hsame, List.map_id]
    rfl

/-- Freezing a graph carries its known resources over. -/
theorem carries_freeze (h : Sound g) :
    Carries (fun id => (g.finalId id).getD 0) (fun r => g.moved ((g.finalId r.id).getD 0) r) g
      g.freeze := by
  have hfinal : ∀ id, (g.kindOf id).isKnown = true →
      g.finalId id = some ((g.finalId id).getD 0) := by
    intro id hknown
    obtain ⟨r, hr⟩ := exists_resource (lt_size_of_isKnown hknown)
    have hkept : (g.finalId id).isSome = true := by
      rw [kindOf_eq hr] at hknown
      rw [isSome_finalId hr, retains, hknown, Bool.or_true]
    obtain ⟨j, hj⟩ := Option.isSome_iff_exists.1 hkept
    rw [hj, Option.getD_some]
  have hascending : ∀ i j, (g.kindOf i).isKnown = true → (g.kindOf j).isKnown = true → i < j →
      (g.finalId i).getD 0 < (g.finalId j).getD 0 := by
    intro i j hi hj hless
    have hfi := hfinal i hi
    have hfj := hfinal j hj
    by_cases hfilters : g.configuration.filtersByType = true
    · simp only [finalId, if_pos hfilters] at hfi hfj ⊢
      exact newId_lt hfi hfj hless
    · simpa [finalId, hfilters] using hless
  -- concepts are linked with concepts, and these have new ids
  have hmoved : ∀ s : IdSet, (∀ id ∈ s, (g.kindOf id).isKnown = true) →
      (s.filterMap g.finalId).toList = s.toList.map fun id => (g.finalId id).getD 0 := by
    intro s hs
    refine IdSet.toList_eq_map (fun id => ?_) fun i hi j hj hless =>
      hascending i j (hs i hi) (hs j hj) hless
    rw [IdSet.mem_filterMap]
    refine exists_congr fun old => and_congr_right fun hold => ?_
    rw [hfinal old (hs old hold), Option.some.injEq, Option.getD_some]
  refine ⟨known_freeze h, fun _ => rfl, fun _ => rfl, fun r hr => hmoved _ fun a ha => ?_,
    fun r hr => hmoved _ fun a ha => ?_, hascending⟩
  · obtain ⟨i, hi⟩ := mem_resources_iff.1 hr
    rw [(h.linked.narrower_kinds i a (linksOf_eq hi ▸ ha)).2]
    rfl
  · obtain ⟨i, hi⟩ := mem_resources_iff.1 hr
    have hnarrower := (h.linked.narrower_iff a i).2 (linksOf_eq hi ▸ ha)
    rw [(h.linked.narrower_kinds a i hnarrower).1]
    rfl

end ResourceGraph

end Thesaurus
