import Thesaurus.Proofs.Forest.Distinct
import Thesaurus.Proofs.Forest.SiblingOrder
import Thesaurus.Proofs.Graph.Renaming

/-!
# Traversals of renamed resources

Where resources print apart, a traversal that meets a renamed resource does what it did before, with
other ids: nodes show the same, and edges are followed in the same order. Only lists of ids are in
another order.

- `Context.renamed`, `Edge.renamed`, `Frame.renamed`: what a traversal handles, renamed.
- `Renames.contextOf`, `Renames.edgesBelow_perm`: the contexts and the edges of a renamed graph.
- `openedFrame`, `place_eq`: the frame that placing a resource gives, in full.
- `Renames.openedFrame`: it is renamed with the graph.
- `Renames.plannedRoots`: so are the roots.
-/

namespace Thesaurus

open Traversal

variable {σ : ResourceId ≃ ResourceId}

/-- A context with all ids renamed. -/
def Context.renamed (σ : ResourceId ≃ ResourceId) (c : Context) : Context where
  id := σ c.id
  members := c.members.renamed σ
  tops := c.tops.renamed σ
  flat := c.flat

namespace Traversal

/-- An edge with all ids renamed. -/
def Edge.renamed (σ : ResourceId ≃ ResourceId) (e : Edge) : Edge :=
  { e with target := σ e.target, context := e.context.map σ }

/-- A frame with all ids renamed. -/
def Frame.renamed (σ : ResourceId ≃ ResourceId) (f : Frame) : Frame :=
  { f with
    resource := f.resource.renamed σ
    opens := f.opens.map (·.renamed σ)
    pending := f.pending.map (·.renamed σ) }

end Traversal

namespace Renames

variable {g g' : ResourceGraph} {r k : Resource} {path : List Resource} {id : ResourceId}
  {c : Context} {e : Edge}

/-! ## Paths -/

theorem holds (h : Renames σ g g') (hr : g.Holds r) : g'.Holds (r.renamed σ) := by
  have hget := h.get r.id
  rw [hr] at hget
  exact hget

/-- Every resource of the renamed graph is a renamed one. -/
theorem exists_held (h : Renames σ g g') (hg : Indexed g) (hk : g'.Holds k) :
    ∃ r, g.Holds r ∧ k = r.renamed σ := by
  obtain ⟨id, hid⟩ := σ.surjective k.id
  have hget := h.get id
  rw [hid, hk] at hget
  obtain ⟨r, hr, hrenamed⟩ := Option.map_eq_some_iff.1 hget.symm
  exact ⟨r, ResourceGraph.holds_of_get hg hr, hrenamed.symm⟩

theorem viewOf (h : Renames σ g g') : g'.viewOf (σ id) = g.viewOf id := by
  rw [ResourceGraph.viewOf, ResourceGraph.viewOf, h.get]
  cases g.resources[id]? <;> rfl

theorem declaredMembers_renamed : (r.renamed σ).declaredMembers = r.declaredMembers.renamed σ := by
  unfold Resource.declaredMembers
  rw [Resource.kind_renamed]
  split <;> rfl

theorem hasOrder_renamed : (r.renamed σ).hasOrder = r.hasOrder := by
  rw [Resource.hasOrder, Resource.hasOrder, Resource.orderedMembers_renamed, Option.isSome_map,
    Resource.kind_renamed]

theorem nearestContext?_renamed :
    nearestContext? (path.map (·.renamed σ)) = (nearestContext? path).map (·.renamed σ) := by
  rw [nearestContext?, nearestContext?, List.find?_map]
  rfl

theorem isTopOn_renamed : isTopOn (path.map (·.renamed σ)) (σ id) = isTopOn path id := by
  rw [isTopOn, isTopOn, nearestContext?_renamed]
  cases nearestContext? path with
  | none => rfl
  | some k =>
    have htops : (k.renamed σ).links.topConcepts = k.links.topConcepts.renamed σ := rfl
    simp [htops]

theorem shownOutside (h : Renames σ g g') : g'.shownOutside (σ id) = g.shownOutside id := by
  have hinSchemes : (g'.linksOf (σ id)).inSchemes = (g.linksOf id).inSchemes.renamed σ := by
    rw [h.linksOf]
    rfl
  rw [ResourceGraph.shownOutside, ResourceGraph.shownOutside, hinSchemes, IdSet.isEmpty_renamed,
    h.configuration]

/-- What selects from a renamed set selects the renamed ids, though in another order. -/
theorem filter_renamed_perm {s : IdSet} {keep keep' : ResourceId → Bool}
    (hkeep : ∀ id ∈ s, keep' (σ id) = keep id) :
    ((s.renamed σ).toList.filter keep').Perm ((s.toList.filter keep).map σ) := by
  have hselected : (s.renamed σ).toList.filter keep' = ((s.filter keep).renamed σ).toList :=
    congrArg IdSet.toList (IdSet.filter_renamed hkeep)
  rw [hselected]
  exact IdSet.toList_renamed

theorem narrowerIn_perm (h : Renames σ g g') :
    (g'.narrowerIn (path.map (·.renamed σ)) (r.renamed σ)).Perm
      ((g.narrowerIn path r).map σ) := by
  have hnarrower : (r.renamed σ).links.narrower = r.links.narrower.renamed σ := rfl
  unfold ResourceGraph.narrowerIn
  rw [nearestContext?_renamed, hnarrower]
  cases nearestContext? path with
  | none => exact filter_renamed_perm fun id _ => h.shownOutside
  | some k =>
    simp only [Option.map_some, hasOrder_renamed]
    split
    · exact List.Perm.refl _
    · refine filter_renamed_perm fun id _ => ?_
      rw [declaredMembers_renamed]
      exact decide_eq_decide.2 IdSet.mem_renamed

/-! ## Contexts -/

theorem contextOf (h : Renames σ g g') :
    g'.contextOf (r.renamed σ) = (g.contextOf r).renamed σ := by
  have hconcepts : (r.renamed σ).declaredMembers.filter (g'.kindOf · == .concept) =
      (r.declaredMembers.filter (g.kindOf · == .concept)).renamed σ := by
    rw [declaredMembers_renamed]
    exact IdSet.filter_renamed fun id _ => by rw [h.kindOf]
  have htops : (r.renamed σ).links.topConcepts = r.links.topConcepts.renamed σ := rfl
  unfold ResourceGraph.contextOf Context.renamed
  rw [hconcepts, htops, hasOrder_renamed, Resource.kind_renamed, IdSet.inter_renamed]
  congr 1
  split <;> rfl

theorem contextOf? (h : Renames σ g g') :
    g'.contextOf? (r.renamed σ) = (g.contextOf? r).map (·.renamed σ) := by
  unfold ResourceGraph.contextOf?
  rw [Resource.kind_renamed, h.contextOf]
  split <;> rfl

theorem restrict_renamed {ids : IdSet} :
    (c.renamed σ).restrict (ids.renamed σ) = (c.restrict ids).renamed σ := by
  unfold Context.restrict
  show (if c.flat = true then ∅ else (ids.renamed σ).inter (c.members.renamed σ)) = _
  rw [IdSet.inter_renamed]
  split <;> rfl

theorem hasBroader (h : Renames σ g g') :
    (c.renamed σ).hasBroader g' (σ id) = c.hasBroader g id := by
  have hbroader : (g'.linksOf (σ id)).broader = (g.linksOf id).broader.renamed σ := by
    rw [h.linksOf]
    rfl
  rw [Context.hasBroader, Context.hasBroader, hbroader, restrict_renamed, IdSet.isEmpty_renamed]

theorem isTop_renamed : (c.renamed σ).isTop (σ id) = c.isTop id :=
  decide_eq_decide.2 IdSet.mem_renamed

theorem roots_perm (h : Renames σ g g') :
    ((c.renamed σ).roots g').Perm ((c.roots g).map σ) :=
  filter_renamed_perm fun id _ => by rw [isTop_renamed, h.hasBroader]

/-! ## Edges -/

theorem memberEdge? (h : Renames σ g g') :
    memberEdge? g' (c.renamed σ) (σ id) = (memberEdge? g c id).map (·.renamed σ) := by
  unfold Traversal.memberEdge?
  rw [h.kindOf, h.hasBroader]
  cases g.kindOf id <;> first | rfl | (dsimp only; split <;> rfl)

theorem positionedEdge_renamed {position : Nat} :
    positionedEdge (c.renamed σ) (σ id) position = (positionedEdge c id position).renamed σ := by
  have hmember : σ id ∈ (c.renamed σ).members ↔ id ∈ c.members := IdSet.mem_renamed
  unfold positionedEdge Edge.renamed
  by_cases hinside : id ∈ c.members
  · rw [if_pos hinside, if_pos (hmember.2 hinside)]
    rfl
  · rw [if_neg hinside, if_neg fun hmem => hinside (hmember.1 hmem)]
    rfl

theorem memberEdges_perm (h : Renames σ g g') :
    (memberEdges g' (r.renamed σ)).Perm ((memberEdges g r).map (·.renamed σ)) := by
  unfold memberEdges
  rw [hasOrder_renamed, h.contextOf]
  split
  · -- declared orders are renamed as they are
    refine List.Perm.of_eq ?_
    rw [Resource.orderedMembers_renamed]
    have horder : (Option.map (List.map σ) r.links.orderedMembers).getD [] =
        (r.links.orderedMembers.getD []).map σ := by
      cases r.links.orderedMembers <;> rfl
    rw [horder, List.zipIdx_map, List.map_map, List.map_map]
    exact List.map_congr_left fun _ _ => positionedEdge_renamed
  · have hmembers : (r.renamed σ).links.members = r.links.members.renamed σ := rfl
    rw [hmembers, List.map_filterMap]
    refine (IdSet.toList_renamed.filterMap _).trans (List.Perm.of_eq ?_)
    rw [List.filterMap_map]
    exact List.filterMap_congr fun id _ => h.memberEdge?

/-- The edges of a renamed resource are the renamed edges, though in another order. -/
theorem edgesBelow_perm (h : Renames σ g g') :
    (edgesBelow g' (path.map (·.renamed σ)) (r.renamed σ)).Perm
      ((edgesBelow g path r).map (·.renamed σ)) := by
  unfold edgesBelow
  rw [Resource.kind_renamed]
  cases r.kind with
  | unknown => exact List.Perm.refl _
  | concept =>
    refine (h.narrowerIn_perm.map _).trans (List.Perm.of_eq ?_)
    rw [List.map_map, List.map_map, nearestContext?_renamed, Option.map_map]
    refine List.map_congr_left fun id _ => ?_
    simp only [Function.comp_apply, Edge.renamed, Option.map_map]
    rfl
  | conceptScheme =>
    rw [h.contextOf]
    refine (h.roots_perm.map _).trans (List.Perm.of_eq ?_)
    rw [List.map_map, List.map_map]
    rfl
  | collection => exact h.memberEdges_perm
  | orderedCollection => exact h.memberEdges_perm

end Renames

namespace Traversal

variable {g : ResourceGraph} {r : Resource} {path : List Resource} {e : Edge}

/-- Edges lead to resources. -/
theorem edgesBelow_lt (h : Sound g) (hr : g.Holds r) (he : e ∈ edgesBelow g path r) :
    e.target < g.size := by
  have hmembers : e ∈ memberEdges g r → e.target < g.size := by
    intro he
    have hinside := target_mem_of_memberEdges h hr he
    rw [← hr.linksOf] at hinside
    exact h.member_lt hinside
  unfold edgesBelow at he
  cases hkind : r.kind with
  | unknown =>
    rw [hkind] at he
    cases he
  | concept =>
    rw [hkind] at he
    obtain ⟨id, hid, rfl⟩ := List.mem_map.1 he
    exact hr.narrower_lt h (ResourceGraph.mem_narrowerIn h hr hid).1
  | conceptScheme =>
    rw [hkind] at he
    obtain ⟨id, hid, rfl⟩ := List.mem_map.1 he
    exact ResourceGraph.declaredMember_lt h hr
      (ResourceGraph.mem_contextOf.1 (List.mem_filter.1 hid).1).1
  | collection =>
    rw [hkind] at he
    exact hmembers he
  | orderedCollection =>
    rw [hkind] at he
    exact hmembers he

/-- The key by which an edge at the end of a path is planned. -/
def keyOn (g : ResourceGraph) (path : List Resource) (e : Edge) : Option SiblingKey :=
  g.resources[e.target]?.map (SiblingKey.ofResource · e.position (isTopOn path e.target))

/-- The edges below a resource in the order in which they are followed. -/
def plannedEdges (g : ResourceGraph) (path : List Resource) (r : Resource) : List Edge :=
  sortOn (keyOn g (r :: path)) (absentLast SiblingKey.compare) (edgesBelow g path r).reverse

/-- The frame of a resource that an edge at the end of a path leads to, as it is opened. -/
def openedFrame (g : ResourceGraph) (path : List Resource) (e : Edge) (r : Resource) : Frame where
  resource := r
  entry := { view := r.view, position := e.position, topConcept := isTopOn path r.id }
  opens := g.contextOf? r
  pending := plannedEdges g path r

/-- Placing a resource opens its frame. -/
theorem place_eq (h : Sound g) (hpath : ∀ q ∈ path, g.Holds q) (hr : g.Holds r)
    (hknown : r.kind.isKnown = true) (he : Apt g path e) (htarget : e.target = r.id) :
    place g (g.contextsOn path) e = .ok (openedFrame g path e r) := by
  have hfound : g.resource e.target = .ok r := by
    rw [htarget]
    exact ResourceGraph.resource_eq hr
  -- the contexts that are open below the resource are those on the path that it prolongs
  have hcontexts : (g.contextsOn path).enter (g.contextOf? r) = g.contextsOn (r :: path) := rfl
  have honPath : ∀ q ∈ r :: path, g.Holds q := by
    intro q hq
    rcases List.mem_cons.1 hq with rfl | hq
    · exact hr
    · exact hpath q hq
  have hkeys : ∀ e' ∈ (edgesBelow g path r).reverse,
      edgeKey g (g.contextsOn (r :: path)) e' = keyOn g (r :: path) e' := by
    intro e' he'
    have hapt : Apt g (r :: path) e' :=
      edgesBelow_apt h hr (he.in_scope r hr htarget.symm) (List.mem_reverse.1 he')
    rw [edgeKey, keyOn, leadsToTop_eq h honPath hapt]
  simp only [place, hfound, plan_ok h hpath hr hknown htarget he.context_eq,
    schedule_eq fun e' he' => edgesBelow_lt h hr he', hcontexts, sortOn_congr hkeys]
  rfl

/-- Edges of one resource with equal keys are equal where resources print apart. -/
theorem eq_of_keyOn (h : Sound g) (horders : g.OrdersExact) (hapart : g.PrintsApart)
    (hr : g.Holds r) {e e' : Edge} (he : e ∈ edgesBelow g path r) (he' : e' ∈ edgesBelow g path r)
    (hkey : keyOn g (r :: path) e = keyOn g (r :: path) e') : e = e' := by
  have hlt := edgesBelow_lt h hr he
  have hlt' := edgesBelow_lt h hr he'
  obtain ⟨s, hs⟩ := ResourceGraph.exists_resource hlt
  obtain ⟨s', hs'⟩ := ResourceGraph.exists_resource hlt'
  rw [keyOn, keyOn, hs, hs'] at hkey
  have hiri : s.view.iri = s'.view.iri := congrArg SiblingKey.iri (Option.some.inj hkey)
  have htarget : e.target = e'.target := by
    refine hapart.eq_of_iri h.indexed hlt hlt' ?_
    rw [ResourceGraph.viewOf, ResourceGraph.viewOf, hs, hs']
    exact hiri
  exact List.inj_on_of_nodup_map (edgesBelow_nodup horders hr) he he' htarget

end Traversal

namespace Renames

open Traversal

variable {g g' : ResourceGraph} {r : Resource} {path : List Resource} {e : Edge}

theorem keyOn (h : Renames σ g g') :
    keyOn g' (path.map (·.renamed σ)) (e.renamed σ) = keyOn g path e := by
  unfold Traversal.keyOn
  show (g'.resources[σ e.target]?).map _ = _
  rw [h.get, Option.map_map]
  congr 1
  funext s
  show SiblingKey.ofResource (s.renamed σ) e.position (isTopOn (path.map _) (σ e.target)) = _
  rw [isTopOn_renamed]
  rfl

/-- Where resources print apart, renamed edges are followed in the same order. -/
theorem plannedEdges (h : Renames σ g g') (hg : Sound g) (horders : g.OrdersExact)
    (hapart : g.PrintsApart) (hr : g.Holds r) :
    plannedEdges g' (path.map (·.renamed σ)) (r.renamed σ) =
      (plannedEdges g path r).map (·.renamed σ) := by
  have hperm : (edgesBelow g' (path.map (·.renamed σ)) (r.renamed σ)).reverse.Perm
      ((edgesBelow g path r).reverse.map (·.renamed σ)) := by
    rw [List.map_reverse]
    exact (List.reverse_perm _).trans (h.edgesBelow_perm.trans (List.reverse_perm _).symm)
  have hkeys : ∀ e ∈ (edgesBelow g path r).reverse,
      Traversal.keyOn g' ((r :: path).map (·.renamed σ)) (e.renamed σ) =
        Traversal.keyOn g (r :: path) e := fun _ _ => h.keyOn
  rw [Traversal.plannedEdges, Traversal.plannedEdges, ← sortOn_map hkeys]
  refine sortOn_eq_of_perm hperm ?_
  intro _ hmem _ hmem' hsame
  obtain ⟨a, ha, rfl⟩ := List.mem_map.1 hmem
  obtain ⟨b, hb, rfl⟩ := List.mem_map.1 hmem'
  rw [← List.map_cons, h.keyOn, h.keyOn] at hsame
  have hequal : a = b :=
    eq_of_keyOn hg horders hapart hr (List.mem_reverse.1 ha) (List.mem_reverse.1 hb) hsame
  rw [hequal]

/-- A resource is opened as it was before, with other ids. -/
theorem openedFrame (h : Renames σ g g') (hg : Sound g) (horders : g.OrdersExact)
    (hapart : g.PrintsApart) (hr : g.Holds r) :
    openedFrame g' (path.map (·.renamed σ)) (e.renamed σ) (r.renamed σ) =
      (openedFrame g path e r).renamed σ := by
  unfold Traversal.openedFrame Frame.renamed
  rw [h.plannedEdges hg horders hapart hr, h.contextOf?, Resource.id_renamed, isTopOn_renamed]
  rfl

/-! ## Roots -/

/-- The resources are those of the other graph, though in another order. -/
theorem resources_perm (h : Renames σ g g') (hg : Indexed g) (hg' : Indexed g') :
    g'.resources.toList.Perm (g.resources.toList.map (·.renamed σ)) := by
  have hids : ∀ {g : ResourceGraph}, Indexed g → (g.resources.toList.map (·.id)).Nodup := by
    intro g hg
    rw [map_id_resources hg]
    exact List.nodup_range
  have hnodup : (g.resources.toList.map (·.renamed σ)).Nodup := by
    refine List.Nodup.of_map (·.id) ?_
    rw [List.map_map]
    have hnew := (hids hg).map σ.injective
    rwa [List.map_map] at hnew
  refine (List.perm_ext_iff_of_nodup (List.Nodup.of_map _ (hids hg')) hnodup).2 fun r' => ?_
  rw [List.mem_map]
  constructor
  · intro hmem
    obtain ⟨r, hr, rfl⟩ := h.exists_held hg (ResourceGraph.holds_of_mem hg' hmem)
    exact ⟨r, ResourceGraph.mem_resources_iff.2 ⟨r.id, hr⟩, rfl⟩
  · rintro ⟨r, hmem, rfl⟩
    exact ResourceGraph.mem_resources_iff.2 ⟨_, h.holds (ResourceGraph.holds_of_mem hg hmem)⟩

theorem isRootConcept (h : Renames σ g g') :
    g'.isRootConcept (r.renamed σ) = g.isRootConcept r := by
  have hinSchemes : ∀ id, (g'.linksOf (σ id)).inSchemes.isEmpty =
      (g.linksOf id).inSchemes.isEmpty := by
    intro id
    have hrenamed : (g'.linksOf (σ id)).inSchemes = (g.linksOf id).inSchemes.renamed σ := by
      rw [h.linksOf]
      rfl
    rw [hrenamed, IdSet.isEmpty_renamed]
  have hall : ∀ s : IdSet, (s.renamed σ).toList.all (fun b => !(g'.linksOf b).inSchemes.isEmpty) =
      s.toList.all fun b => !(g.linksOf b).inSchemes.isEmpty := by
    intro s
    rw [IdSet.toList_renamed.all_eq, List.all_map]
    exact congrArg s.toList.all (funext fun b => congrArg _ (hinSchemes b))
  have hany : ∀ s : IdSet, (s.renamed σ).toList.any (fun n => (g'.linksOf n).inSchemes.isEmpty) =
      s.toList.any fun n => (g.linksOf n).inSchemes.isEmpty := by
    intro s
    rw [IdSet.toList_renamed.any_eq, List.any_map]
    exact congrArg s.toList.any (funext hinSchemes)
  have hbroader : (r.renamed σ).links.broader = r.links.broader.renamed σ := rfl
  have hnarrower : (r.renamed σ).links.narrower = r.links.narrower.renamed σ := rfl
  have hinCollections : (r.renamed σ).links.inCollections = r.links.inCollections.renamed σ := rfl
  unfold ResourceGraph.isRootConcept
  rw [Resource.kind_renamed, Resource.id_renamed, h.shownOutside, hbroader, hnarrower,
    hinCollections, hall, hany, IdSet.isEmpty_renamed, h.configuration]

/-- Where resources print apart, those that are selected are shown in the same order. -/
theorem plannedIds (h : Renames σ g g') (hg : Indexed g) (hg' : Indexed g')
    (hapart : g.PrintsApart) {p p' : Resource → Bool}
    (hp : ∀ r, p' (r.renamed σ) = p r) :
    plannedIds (g'.resources.toList.filter p') =
      (plannedIds (g.resources.toList.filter p)).map σ := by
  have hselected : (g'.resources.toList.filter p').Perm
      ((g.resources.toList.filter p).map (·.renamed σ)) := by
    refine ((h.resources_perm hg hg').filter p').trans (List.Perm.of_eq ?_)
    rw [List.filter_map]
    exact congrArg _ (List.filter_congr fun r _ => hp r)
  have hmapped : inDisplayOrder ((g.resources.toList.filter p).map (·.renamed σ)) =
      (inDisplayOrder (g.resources.toList.filter p)).map (·.renamed σ) :=
    sortOn_map fun _ _ => rfl
  -- no two of them print alike, so that their order is the only one
  have hsorted : inDisplayOrder (g'.resources.toList.filter p') =
      (inDisplayOrder (g.resources.toList.filter p)).map (·.renamed σ) := by
    rw [← hmapped]
    refine sortOn_eq_of_perm hselected ?_
    intro _ hmem _ hmem' hsame
    obtain ⟨a, ha, rfl⟩ := List.mem_map.1 hmem
    obtain ⟨b, hb, rfl⟩ := List.mem_map.1 hmem'
    have hheld := ResourceGraph.holds_of_mem hg (List.mem_filter.1 ha).1
    have hheld' := ResourceGraph.holds_of_mem hg (List.mem_filter.1 hb).1
    have hiri : (g.viewOf a.id).iri = (g.viewOf b.id).iri := by
      rw [hheld.viewOf, hheld'.viewOf]
      exact congrArg SiblingKey.iri hsame
    rw [hheld.eq hheld' (hapart.eq_of_iri hg hheld.lt_size hheld'.lt_size hiri)]
  rw [Traversal.plannedIds, Traversal.plannedIds, hsorted, List.map_map, List.map_map]
  rfl

/-- The roots are renamed with the graph, and keep their order. -/
theorem plannedRoots (h : Renames σ g g') (hg : Indexed g) (hg' : Indexed g')
    (hapart : g.PrintsApart) : plannedRoots g' = (plannedRoots g).map σ := by
  have hconcepts : Traversal.plannedIds (rootConcepts g') =
      (Traversal.plannedIds (rootConcepts g)).map σ :=
    h.plannedIds hg hg' hapart fun _ => h.isRootConcept
  have hschemes : Traversal.plannedIds (rootSchemes g') =
      (Traversal.plannedIds (rootSchemes g)).map σ :=
    h.plannedIds hg hg' hapart fun _ => by rw [Resource.kind_renamed, h.configuration]
  have hcollections : Traversal.plannedIds (rootCollections g') =
      (Traversal.plannedIds (rootCollections g)).map σ := by
    refine h.plannedIds hg hg' hapart fun r => ?_
    have hinCollections : (r.renamed σ).links.inCollections = r.links.inCollections.renamed σ := rfl
    rw [Resource.kind_renamed, h.configuration, hinCollections, IdSet.isEmpty_renamed]
  rw [Traversal.plannedRoots, Traversal.plannedRoots, hconcepts, hschemes, hcollections,
    List.map_append, List.map_append]

end Renames

end Thesaurus
