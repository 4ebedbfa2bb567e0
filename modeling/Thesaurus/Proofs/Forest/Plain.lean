import Thesaurus.Proofs.Forest.Promotion
import Thesaurus.Proofs.Forest.Recursion
import Thesaurus.Proofs.Graph.Plain
import Thesaurus.Proofs.Graph.Showing
import Thesaurus.Proofs.Transform

/-!
# The forest of a plain graph

In a graph in which nothing is known but concepts, a traversal looks at nothing that the
configuration or resources of unknown kind have to do with. It compares ids only by their order, so
under other ids that have the same order it does the same.

- `Jointly`: whether two computations succeed together, with related results.
- `SameProgress`: whether the same was found in one graph as in another.
- `Carries.descends`: the search places every resource alike.
- `Carries.plannedRoots`, `Carries.growEach`, `Carries.promote`: trees are grown from the same
  resources, in the same order.
- `Carries.build`: the same is built.
- `showing_conservative`: without schemes and collections it makes no difference whether they are
  shown.
-/

namespace Thesaurus

namespace ResourceGraph

variable {g : ResourceGraph} {id : ResourceId}

/-- Nothing is in a scheme where there are only concepts. -/
theorem IsPlain.inSchemes_isEmpty (h : g.IsPlain) (hg : Sound g) :
    (g.linksOf id).inSchemes.isEmpty = true := by
  by_contra hinside
  obtain ⟨s, hs⟩ := List.isEmpty_eq_false_iff_exists_mem.1 (Bool.eq_false_iff.2 hinside)
  have hscheme := hg.linked.scheme_kind s id ((hg.linked.schemeMember_iff s id).2 hs)
  have hconcept := h s (by rw [hscheme]; rfl)
  rw [hscheme] at hconcept
  cases hconcept

/-- Nothing is in a collection either. -/
theorem IsPlain.inCollections_isEmpty (h : g.IsPlain) (hg : Sound g) :
    (g.linksOf id).inCollections.isEmpty = true := by
  by_contra hinside
  obtain ⟨k, hk⟩ := List.isEmpty_eq_false_iff_exists_mem.1 (Bool.eq_false_iff.2 hinside)
  have hcollection := hg.linked.collection_kind k id ((hg.linked.member_iff k id).2 hk)
  have hconcept := h k (Kind.isKnown_of_isCollection hcollection)
  rw [hconcept] at hcollection
  cases hcollection

theorem IsPlain.shownOutside (h : g.IsPlain) (hg : Sound g) : g.shownOutside id = true := by
  rw [Traversal.shownOutside_eq hg, h.inSchemes_isEmpty hg]

end ResourceGraph

namespace Traversal

/-! ## Doing the same in two graphs -/

/-- Whether two computations succeed together, with related results. -/
def Jointly {α β : Type} (x : Except Defect α) (y : Except Defect β) (R : α → β → Prop) : Prop :=
  ∃ a b, x = .ok a ∧ y = .ok b ∧ R a b

theorem Jointly.bind {α β γ δ : Type} {x : Except Defect α} {y : Except Defect β}
    {f : α → Except Defect γ} {f' : β → Except Defect δ} {R : α → β → Prop} {S : γ → δ → Prop}
    (h : Jointly x y R) (hf : ∀ a b, R a b → Jointly (f a) (f' b) S) :
    Jointly (x >>= f) (y >>= f') S := by
  obtain ⟨a, b, rfl, rfl, hrelated⟩ := h
  exact hf a b hrelated

/-- An edge under new ids. -/
def Edge.carried (σ : ResourceId → ResourceId) (e : Edge) : Edge :=
  { e with target := σ e.target }

/-- Whether an edge leads to something of known kind, outside all contexts. -/
structure Edge.IsPlain (g : ResourceGraph) (e : Edge) : Prop where
  known : (g.kindOf e.target).isKnown = true
  outside : e.context = none

/-- Whether the same was found in one graph as in another, under new ids. -/
structure SameProgress (g : ResourceGraph) (σ : ResourceId → ResourceId) (p p' : Progress) :
    Prop where
  typed : ∀ id ∈ p.unvisited, (g.kindOf id).isKnown = true
  unvisited : ∀ id, id ∈ p'.unvisited ↔ ∃ old ∈ p.unvisited, σ old = id
  cycle : p'.cycle = p.cycle
  onlyTreeEdges : p'.onlyTreeEdges = p.onlyTreeEdges
  issues : p'.issues = p.issues

end Traversal

open Traversal

variable {g g' : ResourceGraph} {σ : ResourceId → ResourceId} {move : Resource → Resource}
  {path : List Resource} {p p' : Progress} {r : Resource} {e : Edge} {edges : List Edge}
  {i j id : ResourceId}

/-! ## Resources and edges -/

namespace Carries

theorem inj (hc : Carries σ move g g') (hi : (g.kindOf i).isKnown = true)
    (hj : (g.kindOf j).isKnown = true) (hsame : σ i = σ j) : i = j := by
  rcases Nat.lt_trichotomy i j with hless | heq | hgreater
  · exact absurd hsame (Nat.ne_of_lt (hc.ascending i j hi hj hless))
  · exact heq
  · exact absurd hsame.symm (Nat.ne_of_lt (hc.ascending j i hj hi hgreater))

theorem holds (hc : Carries σ move g g') (h' : Indexed g') (hr : g.Holds r)
    (hknown : r.kind.isKnown = true) : g'.Holds (move r) := by
  have hmem : r ∈ g.resources.toList.filter (·.kind.isKnown) :=
    List.mem_filter.2 ⟨ResourceGraph.mem_resources_iff.2 ⟨r.id, hr⟩, hknown⟩
  have hmoved := hc.known ▸ List.mem_map_of_mem hmem
  exact ResourceGraph.holds_of_mem h' (List.mem_filter.1 hmoved).1

theorem view (hc : Carries σ move g g') (r : Resource) : (move r).view = r.view := by
  show (move r).bare.view = r.bare.view
  rw [hc.bare]

theorem node (hc : Carries σ move g g') (r : Resource) : (move r).node = r.node := by
  show (move r).bare.node = r.bare.node
  rw [hc.bare]

theorem kind (hc : Carries σ move g g') (r : Resource) : (move r).kind = r.kind := by
  show (move r).bare.kind = r.bare.kind
  rw [hc.bare]

/-- What a known new id comes from. -/
theorem exists_old (hc : Carries σ move g g') (h : Indexed g) (h' : Indexed g')
    (hknown : (g'.kindOf id).isKnown = true) : ∃ r, g.Holds r ∧ (g.kindOf r.id).isKnown = true ∧
      g'.Holds (move r) ∧ σ r.id = id := by
  obtain ⟨r', hr', rfl⟩ := ResourceGraph.exists_held h' (ResourceGraph.lt_size_of_isKnown hknown)
  have hmem : r' ∈ g'.resources.toList.filter (·.kind.isKnown) :=
    List.mem_filter.2 ⟨ResourceGraph.mem_resources_iff.2 ⟨r'.id, hr'⟩, hr'.kindOf ▸ hknown⟩
  rw [hc.known] at hmem
  obtain ⟨r, hr, rfl⟩ := List.mem_map.1 hmem
  obtain ⟨hr, hknown'⟩ := List.mem_filter.1 hr
  have hholds := ResourceGraph.holds_of_mem h hr
  exact ⟨r, hholds, hholds.kindOf ▸ hknown', hr', (hc.id r).symm⟩

theorem isPlain (hc : Carries σ move g g') (h : Indexed g) (h' : Indexed g')
    (hplain : g.IsPlain) : g'.IsPlain := by
  intro id hknown
  obtain ⟨r, hr, hknown', hr', rfl⟩ := hc.exists_old h h' hknown
  have hconcept := hplain r.id hknown'
  rw [hr.kindOf] at hconcept
  rw [← hc.id, hr'.kindOf, hc.kind, hconcept]

/-- What a known id leads to. -/
theorem exists_moved (hc : Carries σ move g g') (h : Indexed g) (h' : Indexed g')
    (hknown : (g.kindOf id).isKnown = true) : ∃ r, g.Holds r ∧ r.id = id ∧
      r.kind.isKnown = true ∧ g'.Holds (move r) ∧ (move r).id = σ id := by
  obtain ⟨r, hr, rfl⟩ := ResourceGraph.exists_held h (ResourceGraph.lt_size_of_isKnown hknown)
  rw [hr.kindOf] at hknown
  exact ⟨r, hr, rfl, hknown, hc.holds h' hr hknown, hc.id r⟩

/-- Edges lead to resources that are moved. -/
theorem exists_target (hc : Carries σ move g g') (h : Indexed g) (h' : Indexed g')
    (he : e.IsPlain g) : ∃ r, g.Holds r ∧ r.kind.isKnown = true ∧ g'.Holds (move r) ∧
      g.resource e.target = .ok r ∧ g'.resource (e.carried σ).target = .ok (move r) := by
  obtain ⟨r, hr, htarget, hknown, hr', htarget'⟩ := hc.exists_moved h h' he.known
  refine ⟨r, hr, hknown, hr', htarget ▸ ResourceGraph.resource_eq hr, ?_⟩
  show g'.resource (σ e.target) = _
  rw [← htarget']
  exact ResourceGraph.resource_eq hr'

/-- Edges lead to resources that are shown alike. -/
theorem edgeKey (hc : Carries σ move g g') (h : Indexed g) (h' : Indexed g') (he : e.IsPlain g) :
    edgeKey g' (openContexts []) (e.carried σ) = edgeKey g (openContexts []) e := by
  obtain ⟨r, hr, htarget, _, hr', htarget'⟩ := hc.exists_moved h h' he.known
  have hfound : g.resources[e.target]? = some r := htarget ▸ hr
  have hfound' : g'.resources[σ e.target]? = some (move r) := htarget' ▸ hr'
  simp [Traversal.edgeKey, hfound, hfound', leadsToTop, he.outside, SiblingKey.ofResource, hc.view,
    Edge.carried]

/-- Edges are put in the same order. -/
theorem schedule (hc : Carries σ move g g') (h : Indexed g) (h' : Indexed g')
    (hedges : ∀ e ∈ edges, Edge.IsPlain g e) : ∃ pending,
      schedule g (openContexts []) edges = .ok pending ∧
      schedule g' (openContexts []) (edges.map (Edge.carried σ)) =
        .ok (pending.map (Edge.carried σ)) ∧
      ∀ e ∈ pending, Edge.IsPlain g e := by
  have hinside : ∀ e ∈ edges, e.target < g.size := fun e he =>
    ResourceGraph.lt_size_of_isKnown (hedges e he).known
  have hinside' : ∀ e' ∈ edges.map (Edge.carried σ), e'.target < g'.size := by
    rintro e' he'
    obtain ⟨e, he, rfl⟩ := List.mem_map.1 he'
    obtain ⟨_, _, _, _, hholds, htarget⟩ := hc.exists_moved h h' (hedges e he).known
    show σ e.target < g'.size
    rw [← htarget]
    exact hholds.lt_size
  refine ⟨_, schedule_eq hinside, ?_, fun e he => ?_⟩
  · rw [schedule_eq hinside', ← List.map_reverse]
    exact congrArg Except.ok (sortOn_map fun e he =>
      hc.edgeKey h h' (hedges e (List.mem_reverse.1 he)))
  · exact hedges e (List.mem_reverse.1 ((sortOn_perm ..).mem_iff.1 he))

end Carries

/-! ## Progress -/

namespace Traversal.SameProgress

theorem mem_iff (hsame : SameProgress g σ p p') (hc : Carries σ move g g')
    (hknown : (g.kindOf id).isKnown = true) : σ id ∈ p'.unvisited ↔ id ∈ p.unvisited := by
  rw [hsame.unvisited]
  refine ⟨fun ⟨old, hold, heq⟩ => ?_, fun hid => ⟨id, hid, rfl⟩⟩
  rwa [← hc.inj (hsame.typed old hold) hknown heq]

theorem visit (hsame : SameProgress g σ p p') (hc : Carries σ move g g')
    (hknown : (g.kindOf id).isKnown = true) :
    SameProgress g σ (p.visit id) (p'.visit (σ id)) where
  typed := fun old hold => hsame.typed old (IdSet.mem_erase.1 hold).1
  unvisited := fun other => by
    rw [Progress.visit, Progress.visit, IdSet.mem_erase, hsame.unvisited]
    constructor
    · rintro ⟨⟨old, hold, rfl⟩, hne⟩
      exact ⟨old, IdSet.mem_erase.2 ⟨hold, fun heq => hne (congrArg σ heq)⟩, rfl⟩
    · rintro ⟨old, hold, rfl⟩
      obtain ⟨hunvisited, hne⟩ := IdSet.mem_erase.1 hold
      exact ⟨⟨old, hunvisited, rfl⟩, fun heq => hne (hc.inj (hsame.typed old hunvisited) hknown
        heq)⟩
  cycle := hsame.cycle
  onlyTreeEdges := hsame.onlyTreeEdges
  issues := hsame.issues

theorem refer (hsame : SameProgress g σ p p') (hc : Carries σ move g g') (parent target : Resource)
    (closes : Bool) : SameProgress g σ (p.refer parent target closes)
      (p'.refer (move parent) (move target) closes) where
  typed := hsame.typed
  unvisited := hsame.unvisited
  cycle := congrArg (· || closes) hsame.cycle
  onlyTreeEdges := rfl
  issues := by
    simp only [Progress.refer, hc.node, hsame.issues]

/-- The same is listed as unvisited. -/
theorem toList_unvisited (hsame : SameProgress g σ p p') (hc : Carries σ move g g') :
    p'.unvisited.toList = p.unvisited.toList.map σ :=
  IdSet.toList_eq_map hsame.unvisited fun i hi j hj hless =>
    hc.ascending i j (hsame.typed i hi) (hsame.typed j hj) hless

end Traversal.SameProgress

/-! ## The search -/

/-- Whether the search places the target of an edge alike in both graphs, below known resources, as
long as no more than `size` resources are unvisited. -/
def Traversal.DescendsAlike (σ : ResourceId → ResourceId) (move : Resource → Resource)
    (g g' : ResourceGraph) (size : Nat) : Prop :=
  ∀ path e p p' (fresh : e.target ∈ p.unvisited) (fresh' : (e.carried σ).target ∈ p'.unvisited),
    p.unvisited.size ≤ size → (∀ q ∈ path, (g.kindOf q.id).isKnown = true) → e.IsPlain g →
    SameProgress g σ p p' →
    Jointly (descend g ⟨path, openContexts []⟩ e p fresh)
      (descend g' ⟨path.map move, openContexts []⟩ (e.carried σ) p' fresh') fun a b =>
        b.1 = a.1 ∧ SameProgress g σ a.2.val b.2.val

namespace Carries

/-- What is above a resource is above it under new ids. -/
theorem any_ancestor (hc : Carries σ move g g')
    (hpath : ∀ q ∈ path, (g.kindOf q.id).isKnown = true) (hknown : (g.kindOf id).isKnown = true) :
    (path.map move).any (·.id == σ id) = path.any (·.id == id) := by
  rw [List.any_map, Bool.eq_iff_iff, List.any_eq_true, List.any_eq_true]
  refine exists_congr fun q => and_congr_right fun hq => ?_
  rw [Function.comp_apply, hc.id, beq_iff_eq, beq_iff_eq]
  exact ⟨hc.inj (hpath q hq) hknown, congrArg σ⟩

/-- A reference shows the same in both graphs. -/
theorem reference (hc : Carries σ move g g') (h : Indexed g) (h' : Indexed g')
    (he : e.IsPlain g) :
    Jointly (reference g (openContexts []) e) (reference g' (openContexts []) (e.carried σ))
      fun a b => b.1 = move a.1 ∧ b.2 = a.2 := by
  obtain ⟨r, _, _, _, hfound, hfound'⟩ := hc.exists_target h h' he
  rw [Traversal.reference, Traversal.reference, hfound, hfound']
  refine ⟨_, _, rfl, rfl, rfl, ?_⟩
  simp [leadsToTop, he.outside, Edge.carried, hc.view]

/-- Edges are followed alike in both graphs. -/
theorem followAll {size : Nat} (ih : DescendsAlike σ move g g' size) (hc : Carries σ move g g')
    (h : Indexed g) (h' : Indexed g') (hp : p.unvisited.size ≤ size)
    (hpath : ∀ q ∈ path, (g.kindOf q.id).isKnown = true)
    (hedges : ∀ e ∈ edges, Edge.IsPlain g e) (hsame : SameProgress g σ p p') :
    Jointly (followAll g ⟨path, openContexts []⟩ r edges p)
      (followAll g' ⟨path.map move, openContexts []⟩ (move r) (edges.map (Edge.carried σ)) p')
        fun a b => b.1 = a.1 ∧ SameProgress g σ a.2.val b.2.val := by
  -- by induction on the edges: the same is unvisited on both sides, so both go the same way
  induction edges generalizing p p' with
  | nil =>
    rw [Traversal.followAll, List.map_nil, Traversal.followAll]
    exact ⟨_, _, rfl, rfl, rfl, hsame⟩
  | cons e later hothers =>
    have hplain := hedges e List.mem_cons_self
    have hlaterOk := fun e he => hedges e (List.mem_cons_of_mem _ he)
    have hfresh_iff : (e.carried σ).target ∈ p'.unvisited ↔ e.target ∈ p.unvisited :=
      hsame.mem_iff hc hplain.known
    rw [Traversal.followAll, List.map_cons, Traversal.followAll]
    by_cases hfresh : e.target ∈ p.unvisited
    · rw [dif_pos hfresh, dif_pos (hfresh_iff.2 hfresh)]
      refine (ih path e p p' hfresh (hfresh_iff.2 hfresh) hp hpath hplain hsame).bind ?_
      rintro ⟨t, q, hsince⟩ ⟨t', q', hsince'⟩ ⟨rfl, hsameQ⟩
      refine (hothers (Nat.le_trans (Nat.le_of_lt hsince) hp) hlaterOk hsameQ).bind ?_
      rintro ⟨ts, last, _⟩ ⟨ts', last', _⟩ ⟨rfl, hsameLast⟩
      exact ⟨_, _, rfl, rfl, rfl, hsameLast⟩
    · rw [dif_neg hfresh, dif_neg fun hf => hfresh (hfresh_iff.1 hf)]
      refine (hc.reference h h' hplain).bind ?_
      rintro ⟨s, node⟩ ⟨s', node'⟩ ⟨hmoved, halike⟩
      obtain rfl : s' = move s := hmoved
      obtain rfl : node' = node := halike
      have hsameRefer : SameProgress g σ (p.refer r s (path.any (·.id == e.target)))
          (p'.refer (move r) (move s) ((path.map move).any (·.id == (e.carried σ).target))) := by
        rw [show (e.carried σ).target = σ e.target from rfl, hc.any_ancestor hpath hplain.known]
        exact hsame.refer hc r s _
      refine (hothers (p := p.refer r s (path.any (·.id == e.target))) hp hlaterOk
        hsameRefer).bind ?_
      rintro ⟨ts, last, _⟩ ⟨ts', last', _⟩ ⟨rfl, hsameLast⟩
      exact ⟨_, _, rfl, rfl, rfl, hsameLast⟩

end Carries

/-- The edges below a concept where there are no contexts. -/
def Traversal.plainEdges (r : Resource) : List Edge :=
  r.links.narrower.toList.map fun id => { target := id }

theorem Traversal.isPlain_of_mem_plainEdges (h : Sound g) (hr : g.Holds r) (he : e ∈ plainEdges r) :
    e.IsPlain g := by
  obtain ⟨id, hid, rfl⟩ := List.mem_map.1 he
  have hnarrower : id ∈ (g.linksOf r.id).narrower := by rwa [hr.linksOf]
  refine ⟨?_, rfl⟩
  show (g.kindOf id).isKnown = true
  rw [(h.linked.narrower_kinds r.id id hnarrower).2]
  rfl

/-- They lead to the same resources in both graphs. -/
theorem Carries.plainEdges (hc : Carries σ move g g') (hr : g.Holds r) :
    plainEdges (move r) = (plainEdges r).map (Edge.carried σ) := by
  rw [Traversal.plainEdges, Traversal.plainEdges,
    hc.narrower r (ResourceGraph.mem_resources_iff.2 ⟨r.id, hr⟩), List.map_map, List.map_map]
  rfl

/-- The plan for a concept where there are no contexts. -/
theorem Traversal.plan_plain (h : Sound g) (hplain : g.IsPlain) (hr : g.Holds r)
    (hknown : r.kind.isKnown = true) (houtside : e.context = none) :
    plan g (openContexts []) e r = .ok
      { entry := { view := r.view, position := e.position }, edges := plainEdges r } := by
  have hconcept : r.kind = .concept := by
    rw [← hr.kindOf]
    exact hplain r.id (by rwa [hr.kindOf])
  have hall : r.links.narrower.toList.filter g.shownOutside = r.links.narrower.toList :=
    List.filter_eq_self.2 fun id _ => hplain.shownOutside h
  simp only [plan, hconcept, conceptPlan, houtside, masterEdges_eq h hr, hall, plainEdges]

/-- The search places every resource alike in both graphs. -/
theorem Carries.descends (hc : Carries σ move g g') (h : Sound g) (h' : Sound g')
    (hplain : g.IsPlain) (size : Nat) : DescendsAlike σ move g g' size := by
  induction size with
  | zero =>
    intro path e p p' hfresh
    have hvisited := IdSet.size_erase_lt hfresh
    omega
  | succ size ih =>
    intro path e p p' hfresh hfresh' hp hpath he hsame
    have hvisited : (p.visit e.target).unvisited.size ≤ size :=
      Nat.le_of_lt_succ (Nat.lt_of_lt_of_le (IdSet.size_erase_lt hfresh) hp)
    obtain ⟨r, hr, hknown, hr', hfound, hfound'⟩ := hc.exists_target h.indexed h'.indexed he
    have hplanned := plan_plain h hplain hr hknown he.outside
    have hplanned' := plan_plain (e := e.carried σ) h' (hc.isPlain h.indexed h'.indexed hplain) hr'
      ((hc.kind r).symm ▸ hknown) he.outside
    obtain ⟨pending, hscheduled, hscheduled', hpendingOk⟩ := hc.schedule h.indexed h'.indexed
      fun e he => isPlain_of_mem_plainEdges h hr he
    have hpathOk : ∀ q ∈ r :: path, (g.kindOf q.id).isKnown = true :=
      List.forall_mem_cons.2 ⟨by rwa [hr.kindOf], hpath⟩
    rw [descend, descend, hfound, hfound']
    show Jointly (plan g (openContexts []) e r >>= _)
      (plan g' (openContexts []) (e.carried σ) (move r) >>= _) _
    rw [hplanned, hplanned', hc.plainEdges hr]
    show Jointly (Traversal.schedule g (openContexts []) (Traversal.plainEdges r) >>= _)
      (Traversal.schedule g' (openContexts []) ((Traversal.plainEdges r).map (Edge.carried σ))
        >>= _) _
    rw [hscheduled, hscheduled']
    have hfollowed := Carries.followAll ih hc h.indexed h'.indexed hvisited (r := r) hpathOk
      hpendingOk (hsame.visit hc he.known)
    refine hfollowed.bind ?_
    rintro ⟨children, q, hsince⟩ ⟨children', q', hsince'⟩ ⟨halike, hsameQ⟩
    obtain rfl : children' = children := halike
    -- no context is open, so that nothing is taken up
    dsimp only
    rw [gather_none rfl, gather_none rfl]
    refine ⟨_, _, rfl, rfl, ?_, hsameQ⟩
    simp [hc.view, Edge.carried]

/-! ## The forest -/

namespace Traversal

/-- The resources that nothing is broader than. -/
def topmost (g : ResourceGraph) : List Resource :=
  (g.resources.toList.filter (·.kind.isKnown)).filter (·.links.broader.isEmpty)

/-- In a plain graph these are the roots. -/
theorem plannedRoots_plain (h : Sound g) (hplain : g.IsPlain) :
    plannedRoots g = plannedIds (topmost g) := by
  have hconcepts : rootConcepts g = topmost g := by
    rw [rootConcepts, topmost, List.filter_filter]
    refine List.filter_congr fun r hr => ?_
    have hholds := ResourceGraph.holds_of_mem h.indexed hr
    have houtside : r.links.inCollections.isEmpty = true := by
      rw [← hholds.linksOf]
      exact hplain.inCollections_isEmpty h
    have hnothing : r.links.broader.toList.all (fun b => !(g.linksOf b).inSchemes.isEmpty) =
        r.links.broader.isEmpty := by
      simp only [hplain.inSchemes_isEmpty h]
      rw [IdSet.isEmpty]
      cases r.links.broader.toList <;> rfl
    rw [ResourceGraph.isRootConcept, hplain.shownOutside h, houtside, hnothing]
    rcases hplain.kind hr with hkind | hkind <;> simp [hkind, Kind.isKnown]
  have hschemes : rootSchemes g = [] := List.filter_eq_nil_iff.2 fun r hr => by
    rcases hplain.kind hr with hkind | hkind <;> simp [hkind]
  have hcollections : rootCollections g = [] := List.filter_eq_nil_iff.2 fun r hr => by
    rcases hplain.kind hr with hkind | hkind <;> simp [hkind, Kind.isCollection]
  have hnone : plannedIds [] = [] := by simp [plannedIds, inDisplayOrder, sortOn]
  rw [plannedRoots, hconcepts, hschemes, hcollections, hnone, List.append_nil, List.append_nil]

end Traversal

namespace Carries

theorem topmost (hc : Carries σ move g g') : topmost g' = (topmost g).map move := by
  rw [Traversal.topmost, Traversal.topmost, hc.known, List.filter_map]
  refine congrArg (List.map move) (List.filter_congr fun r hr => ?_)
  rw [Function.comp_apply, IdSet.isEmpty, hc.broader r (List.mem_filter.1 hr).1, IdSet.isEmpty]
  simp

/-- Trees are grown from the same resources, in the same order. -/
theorem plannedRoots (hc : Carries σ move g g') (h : Sound g) (h' : Sound g')
    (hplain : g.IsPlain) : plannedRoots g' = (plannedRoots g).map σ := by
  have hplain' := hc.isPlain h.indexed h'.indexed hplain
  have horder : inDisplayOrder ((Traversal.topmost g).map move) =
      (inDisplayOrder (Traversal.topmost g)).map move := by
    refine sortOn_map fun r _ => ?_
    simp only [SiblingKey.ofResource, hc.view]
  rw [plannedRoots_plain h' hplain', plannedRoots_plain h hplain, hc.topmost, plannedIds,
    plannedIds, horder, List.map_map, List.map_map]
  exact List.map_congr_left fun r _ => hc.id r

/-- At the start nothing is visited. -/
theorem start (hc : Carries σ move g g') (h : Indexed g) (h' : Indexed g') :
    SameProgress g σ { unvisited := typedIds g } { unvisited := typedIds g' } where
  typed := (start_valid g).typed
  unvisited := fun id => by
    constructor
    · intro hid
      obtain ⟨r, hr, hknown, _, heq⟩ := hc.exists_old h h' ((start_valid g').typed id hid)
      exact ⟨r.id, mem_typedIds hr (hr.kindOf ▸ hknown), heq⟩
    · rintro ⟨old, hold, rfl⟩
      obtain ⟨r, _, _, hknown, hholds, heq⟩ := hc.exists_moved h h' ((start_valid g).typed old hold)
      rw [← heq]
      exact mem_typedIds hholds ((hc.kind r).symm ▸ hknown)
  cycle := rfl
  onlyTreeEdges := rfl
  issues := rfl

/-- The same tree is grown. -/
theorem grow (hc : Carries σ move g g') (h : Sound g) (h' : Sound g') (hplain : g.IsPlain)
    (hfresh : id ∈ p.unvisited) (hsame : SameProgress g σ p p') :
    Jointly (grow g { target := id } p) (grow g' { target := σ id } p') fun a b =>
      b.1 = a.1 ∧ SameProgress g σ a.2 b.2 := by
  have hfresh' : σ id ∈ p'.unvisited := (hsame.mem_iff hc (hsame.typed id hfresh)).2 hfresh
  rw [grow_eq g { target := id } p hfresh, grow_eq g' { target := σ id } p' hfresh']
  have hfound := hc.descends h h' hplain p.unvisited.size [] { target := id } p p' hfresh hfresh'
    (Nat.le_refl _) (fun _ hq => absurd hq List.not_mem_nil) ⟨hsame.typed id hfresh, rfl⟩ hsame
  refine hfound.bind ?_
  rintro ⟨t, q⟩ ⟨t', q'⟩ ⟨halike, hsameQ⟩
  exact ⟨_, _, rfl, rfl, halike, hsameQ⟩

theorem growEach (hc : Carries σ move g g') (h : Sound g) (h' : Sound g') (hplain : g.IsPlain)
    {ids : List ResourceId} (hids : ∀ id ∈ ids, (g.kindOf id).isKnown = true)
    (hsame : SameProgress g σ p p') :
    Jointly (growEach g ids p) (growEach g' (ids.map σ) p') fun a b =>
      b.1 = a.1 ∧ SameProgress g σ a.2 b.2 := by
  induction ids generalizing p p' with
  | nil => exact ⟨_, _, rfl, rfl, rfl, hsame⟩
  | cons id rest ih =>
    have hknown := hids id List.mem_cons_self
    have hothers := fun id hid => hids id (List.mem_cons_of_mem _ hid)
    rw [Traversal.growEach, List.map_cons, Traversal.growEach]
    by_cases hfresh : id ∈ p.unvisited
    · obtain ⟨⟨t, q⟩, ⟨t', q'⟩, hgrown, hgrown', halike, hsameQ⟩ := hc.grow h h' hplain hfresh hsame
      obtain ⟨⟨ts, last⟩, ⟨ts', last'⟩, hlater, hlater', halikes, hsameLast⟩ := ih hothers hsameQ
      rw [if_pos hfresh, if_pos ((hsame.mem_iff hc hknown).2 hfresh), hgrown, hgrown']
      simp only [hlater, hlater']
      exact ⟨_, _, rfl, rfl, congrArg₂ List.cons halike halikes, hsameLast⟩
    · rw [if_neg hfresh, if_neg fun hf => hfresh ((hsame.mem_iff hc hknown).1 hf)]
      exact ih hothers hsame

/-- The same is promoted, in the same order. -/
theorem promote {p p' : Progress} (hc : Carries σ move g g') (h : Sound g) (h' : Sound g')
    (hplain : g.IsPlain) (hsame : SameProgress g σ p p') :
    Jointly (promote g p) (promote g' p') fun a b =>
      b.1 = a.1 ∧ SameProgress g σ a.2 b.2 := by
  have hlisted := hsame.toList_unvisited hc
  cases hleft : p.unvisited.toList with
  | nil =>
    rw [hleft] at hlisted
    rw [promote_of_nothing hleft, promote_of_nothing hlisted]
    exact ⟨_, _, rfl, rfl, rfl, hsame⟩
  | cons id rest =>
    have hfresh : id ∈ p.unvisited := IdSet.mem_def.2 (hleft ▸ List.mem_cons_self)
    obtain ⟨⟨t, q⟩, ⟨t', q'⟩, hgrown, hgrown', halike, hsameQ⟩ := hc.grow h h' hplain hfresh hsame
    have hfewer := size_of_grow hgrown hfresh
    obtain ⟨⟨ts, last⟩, ⟨ts', last'⟩, hlater, hlater', halikes, hsameLast⟩ :=
      hc.promote h h' hplain hsameQ
    rw [hleft] at hlisted
    exact ⟨_, _, promote_of_first hleft hgrown hlater, promote_of_first hlisted hgrown' hlater',
      congrArg₂ List.cons halike halikes, hsameLast⟩
termination_by p.unvisited.size

/-- The same is built. -/
theorem build (hc : Carries σ move g g') (h : Sound g) (h' : Sound g') (hplain : g.IsPlain) :
    ∃ built, build g = .ok built ∧ build g' = .ok built := by
  have hknown : ∀ id ∈ Traversal.plannedRoots g, (g.kindOf id).isKnown = true := by
    intro id hid
    rw [plannedRoots_plain h hplain] at hid
    obtain ⟨r, hr, rfl⟩ := mem_plannedIds.1 hid
    obtain ⟨hr, hknown⟩ := List.mem_filter.1 (List.mem_filter.1 hr).1
    rwa [(ResourceGraph.holds_of_mem h.indexed hr).kindOf]
  obtain ⟨⟨ts, q⟩, ⟨ts', q'⟩, hgrown, hgrown', halike, hsameQ⟩ :=
    hc.growEach h h' hplain hknown (hc.start h.indexed h'.indexed)
  obtain ⟨⟨us, last⟩, ⟨us', last'⟩, hpromoted, hpromoted', halikes, hsameLast⟩ :=
    hc.promote h h' hplain hsameQ
  obtain rfl : ts = ts' := halike.symm
  obtain rfl : us = us' := halikes.symm
  rw [← hc.plannedRoots h h' hplain] at hgrown'
  obtain ⟨_, _, hcycle, honlyTreeEdges, hissues⟩ := hsameLast
  dsimp only at hcycle honlyTreeEdges hissues hpromoted hpromoted'
  refine ⟨⟨sortSiblings (ts ++ us), last.cycle, last.onlyTreeEdges, last.issues⟩, ?_, ?_⟩
  · simp only [Traversal.build, roots_eq h, hgrown, hpromoted]
  · simp only [Traversal.build, roots_eq h', hgrown', hpromoted', hcycle, honlyTreeEdges, hissues]

end Carries

/-! ## Transforms -/

/-- What is shown has no part in what carries over. -/
theorem Carries.of_showing {schemes collections : Bool}
    (hc : Carries σ move (g.showing schemes collections) g') : Carries σ move g g' :=
  ⟨hc.known, hc.id, hc.bare, hc.narrower, hc.broader, hc.ascending⟩

/-- Statements about neither schemes nor collections lead to what is built of their graph where
neither is shown, whatever is shown. -/
theorem transform_plain {c : Configuration} {triples : List Rdf.Triple} {built : Built}
    (hvalid : c.validate = .ok ()) (hother : ∀ t ∈ triples, ¬ isGrouping t)
    (htaken : (ResourceGraph.new (c.showing false false)).ingestAll triples = .ok g)
    (hgrown : build g = .ok built) : transform c triples = .ok
      { forest := (sortedForest c.notationSort built.forest).1
        cycle := built.cycle
        onlyTreeEdges := built.onlyTreeEdges
        issues := g.issues ++ built.issues
        notationFault := (sortedForest c.notationSort built.forest).2 } := by
  obtain ⟨base, htaken₀, hsound, hconfiguration, _⟩ :=
    ResourceGraph.exists_ingestAll triples (Sound.new (c.showing false false)) rfl
  obtain rfl : base = g := Except.ok.inj (htaken₀.symm.trans htaken)
  have hplain : base.IsPlain := ResourceGraph.isPlain_of_neither hsound
    (hconfiguration ▸ rfl) (hconfiguration ▸ rfl)
  -- the statements lead to the same resources in a graph that shows something
  obtain ⟨shown, htakenShown, hsoundShown, hconfigurationShown, hopen, _⟩ :=
    ResourceGraph.exists_ingestAll triples (Sound.new c) rfl
  have hsame : (ResourceGraph.new c).ingestAll triples =
      .ok (base.showing c.conceptSchemes c.collections) :=
    ResourceGraph.ingestAll_showing hother htaken
  obtain rfl : shown = base.showing c.conceptSchemes c.collections :=
    Except.ok.inj (htakenShown.symm.trans hsame)
  have hplainShown : (base.showing c.conceptSchemes c.collections).IsPlain := hplain
  have hcompleted := hplainShown.completed hsoundShown
  have hsoundCompleted := ResourceGraph.sound_completed hsoundShown
  rw [hcompleted] at hsoundCompleted
  obtain ⟨both, hgrown', hgrownShown⟩ :=
    (ResourceGraph.carries_freeze hsoundShown).of_showing.build hsound hsoundCompleted hplain
  obtain rfl : both = built := Except.ok.inj (hgrown'.symm.trans hgrown)
  have hfinished := ResourceGraph.finish_eq hopen
  rw [hcompleted] at hfinished
  rw [transform_eq hvalid hsame hopen hfinished hgrownShown, ResourceGraph.configuration_freeze,
    hconfigurationShown, ResourceGraph.issues_freeze]
  rfl

/-- Without statements about schemes or collections it makes no difference whether these are shown:
configurations that are alike otherwise lead to the same forest, flags, issues and fault. -/
theorem showing_conservative (c c' : Configuration) (triples : List Rdf.Triple)
    (hvalid : c.validate = .ok ()) (hdiffer : c' = c.showing c'.conceptSchemes c'.collections)
    (hother : ∀ t ∈ triples, ¬ isGrouping t) :
    ∃ outcome, transform c triples = .ok outcome ∧ transform c' triples = .ok outcome := by
  obtain ⟨g, htaken, hsound, _⟩ :=
    ResourceGraph.exists_ingestAll triples (Sound.new (c.showing false false)) rfl
  obtain ⟨built, hgrown, _⟩ := exists_build hsound
  have htaken' : (ResourceGraph.new (c'.showing false false)).ingestAll triples = .ok g := by
    rw [hdiffer]
    exact htaken
  have hvalid' : c'.validate = .ok () := by
    rw [hdiffer]
    exact hvalid
  have hsorting : c'.notationSort = c.notationSort := by
    rw [hdiffer]
    rfl
  refine ⟨_, transform_plain hvalid hother htaken hgrown, ?_⟩
  rw [transform_plain hvalid' hother htaken' hgrown, hsorting]

/-- Statements about something of unknown kind and two concepts. -/
def untypedFirst : List Rdf.Triple :=
  ⟨.iri "urn:note", "http://purl.org/dc/terms/title", .literal ⟨"Note", none⟩⟩ :: mutualStatements

theorem showing_conservative_untypedFirst :
    Configuration.validate {} = .ok () ∧
    ({ conceptSchemes := true, collections := true } : Configuration) =
      Configuration.showing {} true true ∧
    (∀ t ∈ untypedFirst, ¬ isGrouping t) ∧
    ∃ outcome, transform {} untypedFirst = .ok outcome ∧
      transform { conceptSchemes := true, collections := true } untypedFirst = .ok outcome := by
  have hother : ∀ t ∈ untypedFirst, ¬ isGrouping t := by decide
  exact ⟨rfl, rfl, hother, showing_conservative {} { conceptSchemes := true, collections := true }
    untypedFirst rfl rfl hother⟩

end Thesaurus
