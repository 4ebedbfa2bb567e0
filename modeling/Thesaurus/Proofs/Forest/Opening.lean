import Thesaurus.Forest.Traversal
import Thesaurus.Proofs.Forest.Scope
import Thesaurus.Proofs.Forest.Siblings

/-!
# Opening a resource

A traversal only follows edges that suit their place. In a sound graph such an edge can always be
followed, and the edges that are planned below its target suit their places again.

- `Apt`: what makes an edge suit the end of a path.
- `edgesBelow`: the edges below a resource, without the ways in which looking them up could fail.
- `edgesBelow_apt`: these edges suit the path that the resource prolongs.
- `place_ok`: what a resource is like when it is opened.
-/

namespace Thesaurus

namespace Traversal

/-- What makes an edge suit the end of a path: its target is a resource to which the path leads, it
names the nearest context if the target is a concept, and that concept can be shown there. -/
structure Apt (g : ResourceGraph) (path : List Resource) (e : Edge) : Prop where
  target_lt : e.target < g.size
  context_eq : e.context =
    if g.kindOf e.target = .concept then (nearestContext? path).map (·.id) else none
  in_scope : ∀ r, g.Holds r → r.id = e.target → r.kind = .concept → g.InScope path r
  led : ∀ parent ∈ path.head?, g.AllowsBelow parent e.target

/-- The edges below a collection. -/
def memberEdges (g : ResourceGraph) (collection : Resource) : List Edge :=
  if collection.hasOrder then
    (collection.links.orderedMembers.getD []).zipIdx.map fun (id, position) =>
      positionedEdge (g.contextOf collection) id position
  else collection.links.members.toList.filterMap (memberEdge? g (g.contextOf collection))

/-- The edges below a resource at the end of a path. -/
def edgesBelow (g : ResourceGraph) (path : List Resource) (r : Resource) : List Edge :=
  match r.kind with
  | .unknown => []
  | .concept => (g.narrowerIn path r).map fun id =>
      { target := id, context := (nearestContext? path).map (·.id) }
  | .conceptScheme => ((g.contextOf r).roots g).map fun id =>
      { target := id, context := some r.id }
  | .collection | .orderedCollection => memberEdges g r

variable {g : ResourceGraph} {path : List Resource} {r k : Resource} {e : Edge} {id : ResourceId}

theorem Apt.fits (he : Apt g path e) (hr : g.Holds r) (htarget : e.target = r.id) :
    g.Fits path r where
  holds := hr
  in_scope := he.in_scope r hr htarget.symm
  led := htarget ▸ he.led

/-! ## Planned edges suit their places -/

/-- An edge to a declared member suits a path that ends in the context. Below a scheme it has to
lead to a concept. -/
theorem apt_of_member (h : Sound g) (hk : g.Holds k) (hgathers : k.kind.gathers = true)
    (htarget : e.target ∈ k.declaredMembers)
    (hscheme : k.kind = .conceptScheme → g.kindOf e.target = .concept)
    (hcontext : e.context = if g.kindOf e.target = .concept then some k.id else none) :
    Apt g (k :: path) e := by
  have hnearest : nearestContext? (k :: path) = some k := by
    rw [nearestContext?_cons, if_pos hgathers]
  refine ⟨ResourceGraph.declaredMember_lt h hk htarget, ?_, ?_, ?_⟩
  · rw [hnearest, hcontext]
    rfl
  · intro r _ hr _
    rw [ResourceGraph.InScope, hnearest]
    exact ⟨hr ▸ htarget, k, rfl, .inl rfl⟩
  · rintro parent ⟨⟩
    unfold Resource.declaredMembers at htarget
    unfold ResourceGraph.AllowsBelow
    cases hkind : k.kind <;> simp_all [Kind.gathers]

/-- An edge to a concept that is shown below another suits the path prolonged by that one. -/
theorem apt_of_narrower (h : Sound g) (hr : g.Holds r) (hkind : r.kind = .concept)
    (hscope : g.InScope path r) (hid : id ∈ g.narrowerIn path r) :
    Apt g (r :: path) { target := id, context := (nearestContext? path).map (·.id) } := by
  obtain ⟨hnarrower, hconcept⟩ := ResourceGraph.mem_narrowerIn h hr hid
  have hnearest' : nearestContext? (r :: path) = nearestContext? path := by
    rw [nearestContext?_cons, hkind]
    rfl
  have hlinked : id ∈ (g.linksOf r.id).narrower := by rwa [hr.linksOf]
  refine ⟨h.narrower_lt hlinked, ?_, ?_, ?_⟩
  · rw [hnearest', if_pos hconcept]
  · intro n hn hnid _
    rw [ResourceGraph.InScope, hnearest']
    unfold ResourceGraph.InScope at hscope
    unfold ResourceGraph.narrowerIn at hid
    cases hnearest : nearestContext? path with
    | none =>
      rw [hnearest] at hid
      rw [hnid]
      exact (List.mem_filter.1 hid).2
    | some k =>
      simp only [hnearest] at hid hscope
      -- the parent is in scope, so that it is a member too
      have hmember : id ∈ k.declaredMembers := by
        split at hid
        · cases hid
        · simpa using (List.mem_filter.1 hid).2
      have hbroader : r.id ∈ n.links.broader := by
        rw [← hn.linksOf, hnid]
        exact (h.linked.narrower_iff r.id id).1 hlinked
      exact ⟨hnid ▸ hmember, r, rfl, .inr ⟨hbroader, hscope.1⟩⟩
  · rintro parent ⟨⟩
    simpa only [ResourceGraph.AllowsBelow, hkind] using hnarrower

/-- An accepted order lists members only. -/
theorem mem_of_mem_order {position : Nat} (h : Sound g) (hr : g.Holds r)
    (hmem : (id, position) ∈ (r.links.orderedMembers.getD []).zipIdx) : id ∈ r.links.members := by
  cases horder : r.links.orderedMembers with
  | none =>
    rw [horder] at hmem
    cases hmem
  | some ids =>
    rw [horder] at hmem
    have hlawful := h.linked.ordered_member r.id ids
    rw [hr.linksOf] at hlawful
    exact hlawful horder id (List.fst_mem_of_mem_zipIdx hmem)

/-- The edges below a collection lead to its members. -/
theorem target_mem_of_memberEdges (h : Sound g) (hr : g.Holds r) (he : e ∈ memberEdges g r) :
    e.target ∈ r.links.members := by
  unfold memberEdges at he
  split at he
  · obtain ⟨⟨id, position⟩, hmem, rfl⟩ := List.mem_map.1 he
    exact mem_of_mem_order h hr hmem
  · obtain ⟨id, hmem, hmade⟩ := List.mem_filterMap.1 he
    unfold memberEdge? at hmade
    split at hmade
    · split at hmade
      · cases hmade
      · cases hmade
        exact hmem
    all_goals cases hmade; try exact hmem

theorem memberEdges_apt (h : Sound g) (hr : g.Holds r) (hkind : r.kind.isCollection = true)
    (he : e ∈ memberEdges g r) : Apt g (r :: path) e := by
  have hgathers := Kind.gathers_of_isCollection hkind
  have hdeclared := Resource.declaredMembers_of_isCollection hkind
  -- what only schemes have to show does not concern collections
  have hnoScheme : ∀ {id}, r.kind = .conceptScheme → g.kindOf id = .concept := by
    intro id hscheme
    rw [hscheme] at hkind
    cases hkind
  unfold memberEdges at he
  split at he
  · obtain ⟨⟨id, position⟩, hmem, rfl⟩ := List.mem_map.1 he
    have hmember : id ∈ r.declaredMembers := by
      rw [hdeclared]
      exact mem_of_mem_order h hr hmem
    refine apt_of_member h hr hgathers hmember hnoScheme ?_
    show (if id ∈ (g.contextOf r).members then _ else _) = _
    simp [hmember, ResourceGraph.contextOf, positionedEdge]
  · obtain ⟨id, hmem, hmade⟩ := List.mem_filterMap.1 he
    have hmember : id ∈ r.declaredMembers := hdeclared ▸ hmem
    unfold memberEdge? at hmade
    split at hmade
    · next hconcept =>
      split at hmade
      · cases hmade
      · cases hmade
        exact apt_of_member h hr hgathers hmember hnoScheme (if_pos hconcept).symm
    · next hkind' =>
      cases hmade
      exact apt_of_member h hr hgathers hmember hnoScheme (by simp [hkind'])
    · next hkind' =>
      cases hmade
      exact apt_of_member h hr hgathers hmember hnoScheme (by simp [hkind'])
    · cases hmade
    · cases hmade

/-- All edges below a resource suit their places. -/
theorem edgesBelow_apt (h : Sound g) (hr : g.Holds r)
    (hscope : r.kind = .concept → g.InScope path r) (he : e ∈ edgesBelow g path r) :
    Apt g (r :: path) e := by
  unfold edgesBelow at he
  cases hkind : r.kind with
  | unknown =>
    rw [hkind] at he
    cases he
  | concept =>
    rw [hkind] at he
    obtain ⟨id, hid, rfl⟩ := List.mem_map.1 he
    exact apt_of_narrower h hr hkind (hscope hkind) hid
  | conceptScheme =>
    rw [hkind] at he
    obtain ⟨id, hid, rfl⟩ := List.mem_map.1 he
    obtain ⟨hmember, hconcept⟩ := ResourceGraph.mem_contextOf.1 (List.mem_filter.1 hid).1
    exact apt_of_member h hr (by rw [hkind]; rfl) hmember (fun _ => hconcept) (if_pos hconcept).symm
  | collection =>
    rw [hkind] at he
    exact memberEdges_apt h hr (by rw [hkind]; rfl) he
  | orderedCollection =>
    rw [hkind] at he
    exact memberEdges_apt h hr (by rw [hkind]; rfl) he

/-! ## Planning -/

/-- A concept that is a top concept where it is shown is a concept. -/
theorem concept_of_isTopOn (h : Sound g) (hpath : ∀ q ∈ path, g.Holds q)
    (htop : isTopOn path id = true) : g.kindOf id = .concept := by
  obtain ⟨k, hnearest, htop'⟩ := (Option.any_eq_true _ _).1 htop
  have hk := hpath k (mem_of_nearestContext? hnearest).1
  exact (ResourceGraph.top_lawful h hk (by simpa using (Bool.and_eq_true_iff.1 htop').2)).2

theorem leadsToTop_eq (h : Sound g) (hpath : ∀ q ∈ path, g.Holds q) (he : Apt g path e) :
    leadsToTop (g.contextsOn path) e = isTopOn path e.target := by
  rw [leadsToTop, he.context_eq]
  by_cases hconcept : g.kindOf e.target = .concept
  · rw [if_pos hconcept, isTopOn]
    cases hnearest : nearestContext? path with
    | none => rfl
    | some k =>
      have hk := hpath k (mem_of_nearestContext? hnearest).1
      show (g.contextsOn path k.id).any _ = _
      rw [ResourceGraph.contextsOn_nearest hnearest]
      exact ResourceGraph.isTop_contextOf h hk
  · -- an edge to anything else names no context, and finds no top concept there
    have hnotTop : isTopOn path e.target ≠ true := fun htop =>
      hconcept (concept_of_isTopOn h hpath htop)
    rw [if_neg hconcept, Bool.eq_false_iff.2 hnotTop]
    rfl

theorem masterEdges_eq (h : Sound g) (hr : g.Holds r) : masterEdges g r =
    .ok ((r.links.narrower.toList.filter g.shownOutside).map fun id => { target := id }) := by
  have hinside : ∀ id ∈ r.links.narrower.toList, id < g.size := fun _ hid => hr.narrower_lt h hid
  rw [masterEdges, ResourceGraph.requireAll_ok hinside]
  rfl

theorem collectionEdges_eq (h : Sound g) (hr : g.Holds r) :
    collectionEdges g r (g.contextOf r) = .ok (memberEdges g r) := by
  have hinside : ∀ id ∈ r.links.members.toList, id < g.size := by
    intro id hid
    refine h.member_lt (k := r.id) ?_
    rwa [hr.linksOf]
  have hrequired := ResourceGraph.requireAll_ok hinside
  have hflat : (g.contextOf r).flat = r.hasOrder := rfl
  simp only [collectionEdges, memberEdges, hrequired, hflat]
  split <;> rfl

/-- A deputy has the narrower concepts that the context allows. -/
theorem deputy_narrower (h : Sound g) (hr : g.Holds r) (hnearest : nearestContext? path = some k) :
    ((g.contextOf k).deputyOf r).narrower.toList = g.narrowerIn path r := by
  show (if k.hasOrder = true then (∅ : IdSet) else r.links.narrower.inter _).toList = _
  unfold ResourceGraph.narrowerIn
  simp only [hnearest]
  split
  · rfl
  · -- narrower resources are concepts, so that being a member is all that is asked
    refine List.filter_congr fun id hid => ?_
    have hlinked : id ∈ (g.linksOf r.id).narrower := by
      rw [hr.linksOf]
      exact hid
    have hconcept := (h.linked.narrower_kinds r.id id hlinked).2
    simp [ResourceGraph.mem_contextOf, hconcept]

/-- Every edge that names the context of its place has a plan for its target. -/
theorem plan_ok (h : Sound g) (hpath : ∀ q ∈ path, g.Holds q) (hr : g.Holds r)
    (hknown : r.kind.isKnown = true) (htarget : e.target = r.id)
    (hcontext : e.context =
      if g.kindOf e.target = .concept then (nearestContext? path).map (·.id) else none) :
    plan g (g.contextsOn path) e r = .ok
      { entry := { view := r.view, position := e.position, topConcept := isTopOn path r.id }
        opens := g.contextOf? r
        edges := edgesBelow g path r } := by
  have hcontext' := hcontext
  rw [htarget, hr.kindOf] at hcontext'
  -- schemes and collections are no top concepts
  have hnotTop : r.kind ≠ .concept → isTopOn path r.id = false := by
    intro hkind
    refine Bool.eq_false_iff.2 fun htop => hkind ?_
    rw [← hr.kindOf]
    exact concept_of_isTopOn h hpath htop
  unfold plan edgesBelow ResourceGraph.contextOf?
  cases hkind : r.kind with
  | unknown => simp [hkind, Kind.isKnown] at hknown
  | concept =>
    rw [hkind, if_pos rfl] at hcontext'
    unfold conceptPlan
    cases hnearest : nearestContext? path with
    | none =>
      have houtside : g.narrowerIn path r = r.links.narrower.toList.filter g.shownOutside := by
        rw [ResourceGraph.narrowerIn, hnearest]
      have htop : isTopOn path r.id = false := by rw [isTopOn, hnearest]; rfl
      simp only [hcontext', hnearest, Option.map_none, masterEdges_eq h hr, houtside, htop]
      rfl
    | some k =>
      have hk := hpath k (mem_of_nearestContext? hnearest).1
      have htop : isTopOn path r.id = ((g.contextOf k).deputyOf r).topConcept := by
        rw [isTopOn, hnearest]
        exact (ResourceGraph.isTop_contextOf h hk).symm
      simp only [hcontext', hnearest, Option.map_some, ResourceGraph.contextsOn_nearest hnearest,
        htop, deputy_narrower h hr hnearest]
      rfl
  | conceptScheme =>
    have hgathers : r.kind.gathers = true := by rw [hkind]; rfl
    simp only [contextPlan, ResourceGraph.contextOf_eq h hr hgathers, contextEdges, hkind,
      hnotTop (by simp [hkind])]
    rfl
  | collection =>
    have hgathers : r.kind.gathers = true := by rw [hkind]; rfl
    simp only [contextPlan, ResourceGraph.contextOf_eq h hr hgathers, contextEdges, hkind,
      collectionEdges_eq h hr, hnotTop (by simp [hkind])]
    rfl
  | orderedCollection =>
    have hgathers : r.kind.gathers = true := by rw [hkind]; rfl
    simp only [contextPlan, ResourceGraph.contextOf_eq h hr hgathers, contextEdges, hkind,
      collectionEdges_eq h hr, hnotTop (by simp [hkind])]
    rfl

/-- Edges to resources are put in the order of their keys. -/
theorem schedule_eq {contexts : OpenContexts} {edges : List Edge}
    (h : ∀ e ∈ edges, e.target < g.size) : schedule g contexts edges =
      .ok (sortOn (edgeKey g contexts) (absentLast SiblingKey.compare) edges.reverse) := by
  have hinside : ∀ id ∈ edges.map (·.target), id < g.size := by
    intro id hid
    obtain ⟨e, he, rfl⟩ := List.mem_map.1 hid
    exact h e he
  rw [schedule, ResourceGraph.requireAll_ok hinside]

/-- Edges to resources can be scheduled, and all of them are. -/
theorem schedule_ok (contexts : OpenContexts) {edges : List Edge}
    (h : ∀ e ∈ edges, e.target < g.size) :
    ∃ pending, schedule g contexts edges = .ok pending ∧ pending.Perm edges :=
  ⟨_, schedule_eq h, (sortOn_perm ..).trans (List.reverse_perm edges)⟩

/-- A resource that is opened: its node shows it, and all edges below it are still to be
followed. -/
theorem place_ok (h : Sound g) (hpath : ∀ q ∈ path, g.Holds q) (hr : g.Holds r)
    (hknown : r.kind.isKnown = true) (he : Apt g path e) (htarget : e.target = r.id) :
    ∃ pending, pending.Perm (edgesBelow g path r) ∧ place g (g.contextsOn path) e = .ok
      { resource := r
        entry := { view := r.view, position := e.position, topConcept := isTopOn path r.id }
        opens := g.contextOf? r
        pending := pending } := by
  have hsuitable : ∀ e' ∈ edgesBelow g path r, e'.target < g.size := by
    intro e' he'
    exact (edgesBelow_apt h hr (he.in_scope r hr htarget.symm) he').target_lt
  obtain ⟨pending, hscheduled, hperm⟩ :=
    schedule_ok ((g.contextsOn path).enter (g.contextOf? r)) hsuitable
  refine ⟨pending, hperm, ?_⟩
  have hfound : g.resource e.target = .ok r := by
    rw [htarget]
    exact ResourceGraph.resource_eq hr
  simp only [place, hfound, plan_ok h hpath hr hknown htarget he.context_eq, hscheduled]

/-- An edge that suits its place has a reference to its target. -/
theorem reference_ok (h : Sound g) (hpath : ∀ q ∈ path, g.Holds q) (hr : g.Holds r)
    (he : Apt g path e) (htarget : e.target = r.id) :
    reference g (g.contextsOn path) e = .ok (r, .leaf
      { view := r.view
        reference := true
        position := e.position
        topConcept := isTopOn path r.id }) := by
  have hfound : g.resource e.target = .ok r := by
    rw [htarget]
    exact ResourceGraph.resource_eq hr
  have htop := leadsToTop_eq h hpath he
  rw [htarget] at htop
  simp only [reference, hfound, htop]

end Traversal

end Thesaurus
