import Thesaurus.Proofs.Forest.Positions
import Thesaurus.Proofs.Forest.StatementOrder

/-!
# What schemes and collections show directly

Below a scheme or collection some resources belong directly: concepts that nothing inside is broader
than, declared top concepts, and nested collections. Other concepts are shown below these, unless
cycles or other places cut them off. Then they are taken up when the context is about to be closed.

- `ResourceGraph.Contains`, `ResourceGraph.Heads`, `ResourceGraph.ShownDirectly`: the concepts in a
  scheme or collection, and what belongs directly below it.
- `mem_targets_iff`: edges lead to what belongs directly below.
- `Gathered`: whether children are what belongs there and what was taken up.
- `Gathering`: the invariant of a frame on the way there.
- `Closes.gathered`: so it is in every tree.
- `contexts_gathered`: so it is in the forest of every reachable graph.
-/

namespace Thesaurus

open Traversal

namespace ResourceGraph

/-- Whether a resource is one of the concepts in a scheme or collection. -/
def Contains (g : ResourceGraph) (k : Resource) (id : ResourceId) : Prop :=
  id ∈ k.declaredMembers ∧ g.kindOf id = .concept

/-- Whether a concept is a declared top concept of a scheme, or has no broader concept inside a
scheme or collection. -/
def Heads (g : ResourceGraph) (k : Resource) (id : ResourceId) : Prop :=
  (k.kind = .conceptScheme ∧ id ∈ k.links.topConcepts) ∨
    ∀ b ∈ (g.linksOf id).broader, ¬ g.Contains k b

/-- Whether a resource belongs directly below a scheme or collection: concepts at the head of the
hierarchy inside, and collections in a collection. -/
def ShownDirectly (g : ResourceGraph) (k : Resource) (id : ResourceId) : Prop :=
  (g.Contains k id ∧ g.Heads k id) ∨
    (k.kind.isCollection = true ∧ id ∈ k.links.members ∧ (g.kindOf id).isCollection = true)

/-- Without an order, links are followed to the concepts inside only. -/
theorem mem_restrict {g : ResourceGraph} {k : Resource} {id : ResourceId} {ids : IdSet}
    (hunordered : k.hasOrder = false) :
    id ∈ (g.contextOf k).restrict ids ↔ id ∈ ids ∧ g.Contains k id := by
  have hflat : (g.contextOf k).flat = false := hunordered
  rw [Context.restrict, hflat, if_neg (by decide), IdSet.mem_inter, mem_contextOf]
  rfl

end ResourceGraph

/-- Whether a child shows what belongs directly below a scheme or collection, or owns another of the
concepts in it. -/
def BelongsTo (g : ResourceGraph) (k : Resource) (c : Tree Entry) : Prop :=
  ∃ q, g.Holds q ∧ c.value.view = q.view ∧ (g.ShownDirectly k q.id ∨
    c.value.reference = false ∧ g.Contains k q.id ∧ ¬ g.Heads k q.id)

/-- Whether the children of a scheme or collection are what belongs there, exactly once, and
otherwise only concepts that are owned here. -/
structure Gathered (g : ResourceGraph) (k : Resource) (children : List (Tree Entry)) : Prop where
  once : ∀ q, g.Holds q → g.ShownDirectly k q.id →
    (children.map (·.value.iri)).count q.node.text = 1
  belongs : ∀ c ∈ children, BelongsTo g k c

/-- Whether the children of a node are gathered if it owns a scheme or collection that lists no
members in order. -/
def GathersWell (g : ResourceGraph) (t : Tree Entry) : Prop :=
  ∀ k, g.Holds k → t.value.reference = false → t.value.view = k.view → k.kind.gathers = true →
    k.hasOrder = false → Gathered g k t.children

namespace Traversal

variable {g : ResourceGraph} {P : List Resource → Frame → IdSet → Prop} {path : List Resource}
  {f : Frame} {e : Edge} {later : List Edge} {r k : Resource} {id : ResourceId} {u v w : IdSet}
  {t tree : Tree Entry}

/-! ## Edges -/

theorem hasBroader_iff (hunordered : k.hasOrder = false) :
    (g.contextOf k).hasBroader g id = true ↔ ∃ b ∈ (g.linksOf id).broader, g.Contains k b := by
  rw [Context.hasBroader, IdSet.isEmpty, Bool.not_eq_true', List.isEmpty_eq_false_iff_exists_mem]
  refine exists_congr fun b => ?_
  rw [← IdSet.mem_def, ResourceGraph.mem_restrict hunordered]

/-- The head of the hierarchy inside a scheme or collection, as its context tells it. -/
theorem heads_iff (h : Sound g) (hk : g.Holds k) (hunordered : k.hasOrder = false) :
    g.Heads k id ↔
      (g.contextOf k).isTop id = true ∨ (g.contextOf k).hasBroader g id = false := by
  rw [ResourceGraph.isTop_contextOf h hk, ← Bool.not_eq_true, hasBroader_iff hunordered]
  simp [ResourceGraph.Heads]

/-- Only schemes have declared top concepts. -/
theorem isTop_of_isCollection (h : Sound g) (hk : g.Holds k) (hkind : k.kind.isCollection = true) :
    (g.contextOf k).isTop id = false := by
  rw [ResourceGraph.isTop_contextOf h hk]
  cases hkind' : k.kind <;> simp_all [Kind.isCollection]

/-- Members lead to themselves: concepts without a broader one inside, and collections. -/
theorem target_memberEdge? {c : Context} : (memberEdge? g c id).map (·.target) =
    if (g.kindOf id = .concept ∧ c.hasBroader g id = false) ∨ (g.kindOf id).isCollection = true
    then some id else none := by
  unfold memberEdge?
  cases hkind : g.kindOf id with
  | concept => cases c.hasBroader g id <;> rfl
  | conceptScheme => rfl
  | collection => rfl
  | orderedCollection => rfl
  | unknown => rfl

theorem mem_memberEdges_iff (h : Sound g) (hr : g.Holds r) (hkind : r.kind.isCollection = true)
    (hunordered : r.hasOrder = false) :
    id ∈ (memberEdges g r).map (·.target) ↔ g.ShownDirectly r id := by
  have hheads : g.Heads r id ↔ (g.contextOf r).hasBroader g id = false := by
    rw [heads_iff h hr hunordered, isTop_of_isCollection h hr hkind]
    simp
  rw [memberEdges, hunordered, if_neg (by simp), List.map_filterMap, List.mem_filterMap]
  simp only [target_memberEdge?, ResourceGraph.ShownDirectly, hheads, ResourceGraph.Contains,
    Resource.declaredMembers_of_isCollection hkind, hkind, true_and]
  constructor
  · rintro ⟨member, hmem, hfound⟩
    split at hfound
    · next hbelongs =>
      cases hfound
      rcases hbelongs with ⟨hconcept, hhead⟩ | hcollection
      · exact .inl ⟨⟨hmem, hconcept⟩, hhead⟩
      · exact .inr ⟨hmem, hcollection⟩
    · cases hfound
  · rintro (⟨⟨hmem, hconcept⟩, hhead⟩ | ⟨hmem, hcollection⟩)
    · exact ⟨id, hmem, if_pos (.inl ⟨hconcept, hhead⟩)⟩
    · exact ⟨id, hmem, if_pos (.inr hcollection)⟩

/-- The edges below a scheme or collection without an order lead to what belongs directly below. -/
theorem mem_targets_iff (path : List Resource) (h : Sound g) (hr : g.Holds r)
    (hgathers : r.kind.gathers = true) (hunordered : r.hasOrder = false) :
    id ∈ (edgesBelow g path r).map (·.target) ↔ g.ShownDirectly r id := by
  cases hscheme : r.kind.isCollection with
  | true =>
    rw [edgesBelow_collection hscheme]
    exact mem_memberEdges_iff h hr hscheme hunordered
  | false =>
    have hkind : r.kind = .conceptScheme := by
      cases hkind : r.kind <;> simp_all [Kind.gathers, Kind.isCollection]
    have hbelow : edgesBelow g path r =
        ((g.contextOf r).roots g).map fun id => { target := id, context := some r.id } := by
      rw [edgesBelow, hkind]
    rw [hbelow, List.map_map, ResourceGraph.ShownDirectly, heads_iff h hr hunordered, Context.roots,
      ResourceGraph.Contains, ← ResourceGraph.mem_contextOf]
    simp [Function.comp_def, IdSet.mem_def, hscheme]

/-! ## Frames -/

/-- What holds of the frame of a scheme or collection that lists no members in order. What belongs
directly below is shown, or an edge leads to it, and all children belong here. Edges lead to what
belongs directly below, but for the only edge to a member that was just taken up. -/
structure Gathering (g : ResourceGraph) (u : IdSet) (f : Frame) : Prop where
  distinct : Distinct g u [] f
  covered : ∀ q, g.Holds q → g.ShownDirectly f.resource q.id →
    (∃ c ∈ f.done, c.value.view = q.view) ∨ q.id ∈ f.pending.map (·.target)
  belongs : ∀ c ∈ f.done, BelongsTo g f.resource c
  planned : (∀ e ∈ f.pending, g.ShownDirectly f.resource e.target) ∨
    ∃ e, f.pending = [e] ∧ e.target ∈ u ∧ g.Contains f.resource e.target ∧
      ¬ g.Heads f.resource e.target

namespace Gathering

/-- A scheme or collection is opened with edges to what belongs directly below. -/
theorem opened (h : Sound g) (horders : g.OrdersExact) (hr : g.Holds r)
    (hgathers : r.kind.gathers = true) (hunordered : r.hasOrder = false) :
    Gathering g u (openedFrame g path e r) := by
  have htargets : ∀ id, id ∈ (plannedEdges g path r).map (·.target) ↔ g.ShownDirectly r id := by
    intro id
    rw [← mem_targets_iff path h hr hgathers hunordered]
    simp only [List.mem_map, mem_plannedEdges]
  exact ⟨⟨[], rfl, fun c hc => absurd hc List.not_mem_nil, plannedEdges_nodup horders hr,
      fun id hid => absurd hid List.not_mem_nil⟩,
    fun q hq hdirect => .inr ((htargets q.id).2 hdirect), fun c hc => absurd hc List.not_mem_nil,
    .inl fun e he => (htargets e.target).1 (List.mem_map_of_mem he)⟩

/-- What the next edge leads to becomes a child, as a reference only if it was visited before. -/
theorem add (h : Gathering g u f) (hpending : f.pending = e :: later) (hr : g.Holds r)
    (htarget : e.target = r.id) (hview : t.value.view = r.view)
    (howned : e.target ∈ u → t.value.reference = false) (hfewer : ∀ id ∈ v, id ∈ u)
    (hvisited : e.target ∉ v) : Gathering g v ((f.leaving later).add t) := by
  -- a planned edge that was followed is now covered by its child
  refine ⟨((h.distinct.fewer hfewer).follow hpending hvisited).add ⟨r, hr, htarget.symm, hview⟩,
    fun q hq hdirect => ?_, fun c hc => ?_, ?_⟩
  · rcases h.covered q hq hdirect with ⟨c, hc, hview'⟩ | hplanned
    · exact .inl ⟨c, List.mem_cons_of_mem _ hc, hview'⟩
    · rw [hpending, List.map_cons, List.mem_cons] at hplanned
      rcases hplanned with hsame | hplanned
      · rw [htarget] at hsame
        exact .inl ⟨t, List.mem_cons_self, hview.trans (hq.eq hr hsame ▸ rfl)⟩
      · exact .inr hplanned
  · rcases List.mem_cons.1 hc with rfl | hc
    · refine ⟨r, hr, hview, ?_⟩
      rw [← htarget]
      rcases h.planned with hdirect | ⟨e', honly, hfresh, hmember, hbehind⟩
      · exact .inl (hdirect e (hpending ▸ List.mem_cons_self))
      · rw [hpending] at honly
        cases honly
        exact .inr ⟨howned hfresh, hmember, hbehind⟩
    · exact h.belongs c hc
  · rcases h.planned with hdirect | ⟨e', honly, _⟩
    · exact .inl fun e' he' => hdirect e' (hpending ▸ List.mem_cons_of_mem _ he')
    · rw [hpending] at honly
      cases honly
      exact .inl fun e' he' => absurd he' List.not_mem_nil

/-- A concept that is taken up does not belong directly below, since that was visited. -/
theorem takeUp (h : Gathering g u f) (hg : Indexed g) (hapart : g.PrintsApart) (hr : g.Holds r)
    (hpending : f.pending = []) (hmember : g.Contains f.resource r.id) (hfresh : r.id ∈ u) :
    Gathering g u (f.takeUp r.id) := by
  have hbehind : ¬ g.Heads f.resource r.id := by
    intro hhead
    rcases h.covered r hr (.inl ⟨hmember, hhead⟩) with ⟨c, hc, hview⟩ | hplanned
    · obtain ⟨children, hdone, hshows, _, hvisited⟩ := h.distinct
      rw [hdone] at hc
      obtain ⟨⟨id, c'⟩, hmem, rfl⟩ := List.mem_map.1 hc
      obtain ⟨q, hq, rfl, hqview⟩ := hshows _ hmem
      cases hapart.eq_of_view hg hq hr (hqview.symm.trans hview)
      exact hvisited _ (List.mem_append_left _ (List.mem_map_of_mem hmem)) hfresh
    · rw [hpending] at hplanned
      cases hplanned
  refine ⟨h.distinct.takeUp hpending hfresh, fun q hq hdirect => ?_, h.belongs,
    .inr ⟨f.edgeTo r.id, congrArg _ hpending, hfresh, hmember, hbehind⟩⟩
  rcases h.covered q hq hdirect with hdone | hplanned
  · exact .inl hdone
  · exact .inr (List.mem_cons_of_mem _ hplanned)

/-- Once all edges were followed, the children are gathered. -/
theorem close (h : Gathering g u f) (hg : Indexed g) (hapart : g.PrintsApart)
    (hpending : f.pending = []) : Gathered g f.resource f.close.children := by
  have hapart' := h.distinct.showApart
  have hperm : f.close.children.Perm f.done :=
    (hapart'.perm hg hapart).trans (List.reverse_perm _)
  refine ⟨fun q hq hdirect => ?_, fun c hc => h.belongs c (hperm.mem_iff.1 hc)⟩
  rcases h.covered q hq hdirect with ⟨c, hc, hview⟩ | hplanned
  · refine List.count_eq_one_of_mem ?_ ?_
    · have hiris := hapart'.nodup_iris hg hapart
      rw [List.map_reverse, List.nodup_reverse] at hiris
      exact (hperm.map _).nodup_iff.2 hiris
    · exact List.mem_map.2 ⟨c, hperm.mem_iff.2 hc, congrArg View.iri hview⟩
  · rw [hpending] at hplanned
    cases hplanned

end Gathering

/-- What holds of every frame: it shows a resource of the graph, whose context is open, and what
belongs below it and below its children is gathered. -/
structure GoesWell (g : ResourceGraph) (u : IdSet) (f : Frame) : Prop where
  holds : g.Holds f.resource
  view_eq : f.entry.view = f.resource.view
  opens_eq : f.opens = g.contextOf? f.resource
  gathering : f.resource.kind.gathers = true → f.resource.hasOrder = false → Gathering g u f
  below : ∀ c ∈ f.done, ∀ s ∈ Forest.nodes [c], GathersWell g s

namespace GoesWell

theorem opened (h : Sound g) (horders : g.OrdersExact) (hr : g.Holds r) :
    GoesWell g u (openedFrame g path e r) :=
  ⟨hr, rfl, rfl, .opened h horders hr, fun _ hc => absurd hc List.not_mem_nil⟩

theorem add (h : GoesWell g u f) (hpending : f.pending = e :: later) (hr : g.Holds r)
    (htarget : e.target = r.id) (hview : t.value.view = r.view)
    (howned : e.target ∈ u → t.value.reference = false) (hfewer : ∀ id ∈ v, id ∈ u)
    (hvisited : e.target ∉ v) (hbelow : ∀ s ∈ Forest.nodes [t], GathersWell g s) :
    GoesWell g v ((f.leaving later).add t) := by
  refine ⟨h.holds, h.view_eq, h.opens_eq, fun hgathers hunordered =>
    (h.gathering hgathers hunordered).add hpending hr htarget hview howned hfewer hvisited, ?_⟩
  intro c hc
  rcases List.mem_cons.1 hc with rfl | hc
  · exact hbelow
  · exact h.below c hc

theorem takeUp (h : GoesWell g u f) (hg : Sound g) (hapart : g.PrintsApart)
    (hpending : f.pending = []) (hleft : f.leftover? u = some id) :
    GoesWell g u (f.takeUp id) := by
  refine ⟨h.holds, h.view_eq, h.opens_eq,
    fun (hgathers : f.resource.kind.gathers = true) hunordered => ?_, h.below⟩
  obtain ⟨_, hopens, hfound⟩ := Option.bind_eq_some_iff.1 hleft
  rw [h.opens_eq, ResourceGraph.contextOf?, if_pos hgathers] at hopens
  cases hopens
  have hmember := ResourceGraph.mem_contextOf.1 (List.mem_of_find?_eq_some hfound)
  obtain ⟨r, hr, rfl⟩ := ResourceGraph.exists_held hg.indexed
    (ResourceGraph.declaredMember_lt hg h.holds hmember.1)
  exact (h.gathering hgathers hunordered).takeUp hg.indexed hapart hr hpending hmember
    (Frame.mem_of_leftover? hleft)

theorem close (h : GoesWell g u f) (hg : Sound g) (hapart : g.PrintsApart)
    (hpending : f.pending = []) : ∀ s ∈ Forest.nodes [f.close], GathersWell g s := by
  intro s hs
  rw [Forest.nodes, Tree.walk_cons, List.mem_cons, List.mem_append] at hs
  rcases hs with rfl | hinside | hnone
  · intro k hk _ hview hgathers hunordered
    obtain rfl := hapart.eq_of_view hg.indexed h.holds hk (h.view_eq.symm.trans hview)
    exact (h.gathering hgathers hunordered).close hg.indexed hapart hpending
  · obtain ⟨c, hc, hinside⟩ := Tree.exists_mem_walk hinside
    exact h.below c (List.mem_reverse.1 (mem_of_mem_sortSiblings hc)) s hinside
  · rw [Tree.walk] at hnone
    cases hnone

end GoesWell

/-! ## Trees -/

/-- References gather nothing. -/
theorem gathersWell_reference : ∀ s ∈ Forest.nodes [referenceTo path e r], GathersWell g s := by
  intro s hs
  obtain rfl : s = referenceTo path e r := by
    simpa [Forest.nodes, Tree.walk, referenceTo, Tree.leaf] using hs
  exact fun _ _ howned => (by cases howned)

/-- Whatever is closed gathered what belongs below it. -/
theorem Closes.gathered (hcloses : Closes g P path f u tree w) (h : Sound g)
    (horders : g.OrdersExact) (hapart : g.PrintsApart) (hwell : GoesWell g u f) :
    ∀ s ∈ Forest.nodes [tree], GathersWell g s := by
  induction hcloses with
  | opened hpending hfresh hholds htarget hchild hrest ihChild ihRest =>
    have hvalue := hchild.value_eq
    refine ihRest (hwell.add hpending hholds htarget ?_ ?_ ?_ ?_
      (ihChild (.opened h horders hholds)))
    · rw [hvalue]
      rfl
    · intro _
      rw [hvalue]
      rfl
    · exact fun id hid => (IdSet.mem_erase.1 (hchild.fewer id hid)).1
    · exact fun hmem => (IdSet.mem_erase.1 (hchild.fewer _ hmem)).2 rfl
  | referred hpending hvisited hholds htarget hrest ih =>
    exact ih (hwell.add hpending hholds htarget rfl (fun hfresh => absurd hfresh hvisited)
      (fun _ hid => hid) hvisited gathersWell_reference)
  | tookUp hpending hleftover hallowed hrest ih =>
    exact ih (hwell.takeUp h hapart hpending hleftover)
  | closed hpending hleftover => exact hwell.close h hapart hpending

/-- So it is in the trees of a forest. -/
theorem Phases.gathered (ph : Phases g) (h : Sound g) (horders : g.OrdersExact)
    (hapart : g.PrintsApart) : ∀ t ∈ Forest.nodes (sortSiblings ph.trees), GathersWell g t := by
  have hall : ∀ t ∈ ph.trees, ∀ s ∈ Forest.nodes [t], GathersWell g s := by
    refine ph.rule (J := fun trees _ => ∀ t ∈ trees, ∀ s ∈ Forest.nodes [t], GathersWell g s) h
      (fun t ht => absurd ht List.not_mem_nil) ?_
    intro id done p tree later hvalid hapt hfresh hbefore hgrown t ht
    rcases List.mem_append.1 ht with ht | ht
    · exact hbefore t ht
    · obtain ⟨r, hr, rfl⟩ := ResourceGraph.exists_held h.indexed hapt.target_lt
      have hcloses := closes_of_grow (P := fun _ _ _ => True) h hvalid hapt hfresh hr rfl
        (fun _ _ _ _ _ _ _ => trivial) hgrown
      rw [List.mem_singleton.1 ht]
      exact hcloses.gathered h horders hapart (.opened h horders hr)
  intro t ht
  obtain ⟨root, hroot, hinside⟩ := Tree.exists_mem_walk ht
  exact hall root (mem_of_mem_sortSiblings hroot) t hinside

/-! ## Closing a context -/

/-- Whether a turn closes the innermost one of so many frames. -/
def Turn.closes (count : Nat) : Turn → Prop
  | .finished _ _ => True
  | .next s => s.frames.length < count

/-- When the frame of a scheme or collection is closed, all concepts in it are visited. -/
theorem Passes.complete {top : Frame} {below : List Frame} {p : Progress} {rootIri : String}
    {turned : Turn} (h : Sound g) (horders : g.OrdersExact) (hpasses : Passes g ⟨top :: below, p⟩)
    (hturn : turn g rootIri ⟨top :: below, p⟩ = .ok turned)
    (hcloses : turned.closes (top :: below).length) (hgathers : top.resource.kind.gathers = true)
    (hmember : g.Contains top.resource id) : id ∉ p.unvisited := by
  obtain ⟨hvalid, _⟩ := hpasses.distinct h horders
  obtain ⟨hseated, _⟩ := hvalid.seated
  obtain ⟨_, hturned', hsteps⟩ := turn_steps rootIri h hvalid
  rw [hturn] at hturned'
  cases hturned'
  have hmember' := ResourceGraph.mem_contextOf.2 hmember
  cases hsteps with
  | opened =>
    simp only [Turn.closes, List.length_cons] at hcloses
    omega
  | referred => exact absurd hcloses (Nat.lt_irrefl _)
  | tookUp => exact absurd hcloses (Nat.lt_irrefl _)
  | closed hpending hleftover => exact hseated.complete hleftover hgathers id hmember'
  | finished hpending hleftover => exact hseated.complete hleftover hgathers id hmember'

end Traversal

open Traversal

/-- In the forest of every reachable graph whose resources print apart, each owned scheme or
collection without a declared order shows directly below it, exactly once, every concept inside that
is a declared top concept or has no broader concept inside, and every collection among the members
of a collection. All other children are owned concepts inside that have a broader concept inside and
are no declared top concepts. No concept inside is left unvisited when the frame of a scheme or
collection is closed. -/
theorem contexts_gathered (g : ResourceGraph) (hreach : Reachable g) (hapart : g.PrintsApart) :
    ∃ built, build g = .ok built ∧
      (∀ t ∈ built.forest.nodes, ∀ k, g.Holds k → t.value.reference = false →
        t.value.view = k.view → k.kind.gathers = true → k.hasOrder = false →
          Gathered g k t.children) ∧
      ∀ rootIri top below p turned, Passes g ⟨top :: below, p⟩ →
        turn g rootIri ⟨top :: below, p⟩ = .ok turned → turned.closes (top :: below).length →
          top.resource.kind.gathers = true →
            ∀ id, g.Contains top.resource id → id ∉ p.unvisited := by
  have hsound := hreach.sound
  obtain ⟨ph⟩ := exists_phases hsound
  exact ⟨_, ph.build_eq hsound, ph.gathered hsound hreach.ordersExact hapart,
    fun _ _ _ _ _ hpasses hturned hcloses hgathers _ hmember =>
      hpasses.complete hsound hreach.ordersExact hturned hcloses hgathers hmember⟩

/-- The forest of two schemes that share a concept. The second one refers to it where it belongs,
but takes up a narrower one. -/
def sharedForest : Forest := [
  schemeTree "urn:r" [plainTree "urn:a" []],
  schemeTree "urn:s" [plainReference "urn:a", plainTree "urn:b" [plainTree "urn:c" []]]]

theorem contexts_gathered_shared :
    let g : ResourceGraph := { sharedConcept 3 4 with frozen := true }
    Reachable g ∧ g.PrintsApart ∧ ∃ built, build g = .ok built ∧ built.forest = sharedForest ∧
      ∃ t ∈ sharedForest, ∃ k, g.Holds k ∧ t.value.view = k.view ∧
        t.children = [plainReference "urn:a", plainTree "urn:b" [plainTree "urn:c" []]] ∧
        Gathered g k t.children := by
  intro g
  have htaken : (ResourceGraph.new { conceptSchemes := true }).ingestAll
      (sharedStatements ["urn:b", "urn:c"]) = .ok (sharedConcept 3 4) := by decide +kernel
  have hfinished : (sharedConcept 3 4).finish = .ok g := by decide +kernel
  have hreachable : Reachable g := ((Reachable.new _).ingestAll htaken).finish hfinished
  have hapart : g.PrintsApart := by
    show PrintApart _
    decide
  obtain ⟨built, hgrown, hgathered, _⟩ := contexts_gathered g hreachable hapart
  have hsame : build g = .ok ⟨sharedForest, false, false, []⟩ := by cbv
  rw [hgrown] at hsame
  cases hsame
  refine ⟨hreachable, hapart, _, hgrown, rfl, _, List.mem_cons_of_mem _ List.mem_cons_self,
    g.resources[2], rfl, rfl, rfl, ?_⟩
  exact hgathered _ (by decide +kernel) _ rfl rfl rfl rfl rfl

end Thesaurus
