import Thesaurus.Proofs.Graph.Reading

/-!
# What finishing leaves of a graph

A finished graph is the restriction of the graph before to the resources that are kept. These keep
their order, their texts and the relations among them; only what schemes have to do with collections
is dropped.

- `ResourceGraph.finalId`: the id of a resource in the finished graph.
- `ResourceGraph.get_freeze`: what stands at an id when resources were left out.
- `ResourceGraph.relates_completed` and so on: a finished graph, read through nodes.
- `Restricts`, `finish_restricts`: all this as one statement about two graphs.
-/

namespace Thesaurus

open Rdf (Node Triple)

namespace ResourceGraph

variable {g g' : ResourceGraph} {i j : ResourceId} {m n : Node} {r s : Resource} {tie : Tie}

/-! ## Leaving resources out -/

/-- The id of a resource when the graph is finished, if it is kept. -/
def finalId (g : ResourceGraph) (id : ResourceId) : Option ResourceId :=
  if g.configuration.filtersByType then g.newId id else some id

theorem finalId_inj {i' : ResourceId} (hi : g.finalId i = some j) (hi' : g.finalId i' = some j) :
    i = i' := by
  unfold finalId at hi hi'
  split at hi
  · next hfilters =>
    rw [if_pos hfilters] at hi'
    exact newId_inj hi hi'
  · next hopen =>
    rw [if_neg hopen, ← hi, Option.some.injEq] at hi'
    exact hi'.symm

/-- The resources that are kept have final ids. -/
theorem isSome_finalId (hr : g.resources[i]? = some r) :
    (g.finalId i).isSome = g.retains r := by
  unfold finalId retains
  cases g.configuration.filtersByType with
  | false => rfl
  | true =>
    rw [if_pos rfl]
    cases hknown' : r.kind.isKnown with
    | true =>
      obtain ⟨j, hj⟩ := exists_newId hr hknown'
      rw [hj]
      rfl
    | false =>
      cases hfound : g.newId i with
      | none => rfl
      | some j =>
        obtain ⟨s, hs, hknown, _⟩ := newId_eq_some.1 hfound
        rw [hr, Option.some.injEq] at hs
        rw [hs, hknown] at hknown'
        cases hknown'

theorem isSome_finalId_lookup (h : Indexed g) (hn : g.lookup n = some i) :
    (g.finalId i).isSome = g.keeps n := by
  obtain ⟨r, hr, rfl⟩ := lookup_eq_some h hn
  rw [isSome_finalId hr, keeps, hn]
  simp [hr]

/-- Renaming nothing changes nothing. -/
theorem rename_some (l : Links) : l.rename some = l :=
  Links.rename_eq_self fun _ _ => rfl

/-- A resource with its final id and its links renamed. -/
def moved (g : ResourceGraph) (j : ResourceId) (r : Resource) : Resource :=
  { r with id := j, links := r.links.rename g.finalId }

/-- What stands at an id when resources were left out. -/
theorem get_freeze (h : Sound g) {r' : Resource} : g.freeze.resources[j]? = some r' ↔
    ∃ i r, g.resources[i]? = some r ∧ g.finalId i = some j ∧ r' = g.moved j r := by
  rw [freeze_eq]
  by_cases hfilters : g.configuration.filtersByType = true
  · have hfinal : g.finalId = g.newId := by
      funext id
      rw [finalId, if_pos hfilters]
    rw [if_pos hfilters]
    simp only [moved, hfinal]
    exact get_prune h
  · have hfinal : g.finalId = some := by
      funext id
      rw [finalId, if_neg hfilters]
    rw [if_neg hfilters]
    simp only [moved, hfinal, rename_some, Option.some.injEq]
    constructor
    · intro hr
      obtain rfl := h.indexed.id_eq j r' hr
      exact ⟨r'.id, r', hr, rfl, rfl⟩
    · rintro ⟨i, r, hr, rfl, rfl⟩
      obtain rfl := h.indexed.id_eq i r hr
      exact hr

theorem lookup_freeze (h : Sound g) : g.freeze.lookup n = (g.lookup n).bind g.finalId := by
  refine Option.ext fun j => ?_
  rw [(sound_freeze h).indexed.lookup_iff, Option.bind_eq_some_iff]
  constructor
  · rintro ⟨r', hr', rfl⟩
    obtain ⟨i, r, hr, hij, rfl⟩ := (get_freeze h).1 hr'
    have hfound : g.lookup r.node = some i := lookup_node h.indexed hr
    exact ⟨i, hfound, hij⟩
  · rintro ⟨i, hn, hij⟩
    obtain ⟨r, hr, rfl⟩ := lookup_eq_some h.indexed hn
    exact ⟨g.moved j r, (get_freeze h).2 ⟨i, r, hr, hij, rfl⟩, rfl⟩

/-- Just the nodes that are kept are found. -/
theorem isSome_lookup_freeze (h : Sound g) : (g.freeze.lookup n).isSome = g.keeps n := by
  rw [lookup_freeze h]
  cases hn : g.lookup n with
  | none => simp [keeps, hn]
  | some i => exact isSome_finalId_lookup h.indexed hn

theorem get_freeze_finalId (h : Sound g) (hr : g.resources[i]? = some r)
    (hij : g.finalId i = some j) : g.freeze.resources[j]? = some (g.moved j r) :=
  (get_freeze h).2 ⟨i, r, hr, hij, rfl⟩

theorem kindOf_freeze (h : Sound g) (hr : g.resources[i]? = some r) (hij : g.finalId i = some j) :
    g.freeze.kindOf j = r.kind := by
  rw [kindOf_eq (get_freeze_finalId h hr hij)]
  rfl

theorem linksOf_freeze (h : Sound g) (hr : g.resources[i]? = some r)
    (hij : g.finalId i = some j) : g.freeze.linksOf j = r.links.rename g.finalId := by
  rw [linksOf_eq (get_freeze_finalId h hr hij)]
  rfl

/-- What is left out is of no kind, so that no kind is lost. -/
theorem kindAt_freeze (h : Sound g) : g.freeze.kindAt n = g.kindAt n := by
  rw [kindAt, kindAt, lookup_freeze h]
  cases hn : g.lookup n with
  | none => rfl
  | some i =>
    obtain ⟨r, hr, rfl⟩ := lookup_eq_some h.indexed hn
    rw [Option.bind_some, Option.elim_some, kindOf_eq hr]
    cases hij : g.finalId i with
    | some j => exact kindOf_freeze h hr hij
    | none =>
      have hdropped : g.retains r = false := by
        rw [← isSome_finalId hr, hij]
        rfl
      unfold retains at hdropped
      cases hkind : r.kind <;> simp_all [Kind.isKnown]

theorem relates_freeze (h : Sound g) :
    g.freeze.Relates tie m n ↔ g.Relates tie m n ∧ g.keeps m = true ∧ g.keeps n = true := by
  unfold Relates
  rw [lookup_freeze h, lookup_freeze h]
  -- a tie is kept just if both ends are
  constructor
  · rintro ⟨i', j', hm', hn', hrelated⟩
    obtain ⟨i, hm, hi⟩ := Option.bind_eq_some_iff.1 hm'
    obtain ⟨j, hn, hj⟩ := Option.bind_eq_some_iff.1 hn'
    obtain ⟨r, hr, rfl⟩ := lookup_eq_some h.indexed hm
    rw [linksOf_freeze h hr hi, Links.along_rename, IdSet.mem_filterMap] at hrelated
    obtain ⟨old, hmem, hold⟩ := hrelated
    obtain rfl := finalId_inj hold hj
    refine ⟨⟨i, old, hm, hn, linksOf_eq hr ▸ hmem⟩, ?_, ?_⟩
    · rw [← isSome_finalId_lookup h.indexed hm, hi]
      rfl
    · rw [← isSome_finalId_lookup h.indexed hn, hj]
      rfl
  · rintro ⟨⟨i, j, hm, hn, hmem⟩, hkeptM, hkeptN⟩
    rw [← isSome_finalId_lookup h.indexed hm] at hkeptM
    rw [← isSome_finalId_lookup h.indexed hn] at hkeptN
    obtain ⟨i', hi⟩ := Option.isSome_iff_exists.1 hkeptM
    obtain ⟨j', hj⟩ := Option.isSome_iff_exists.1 hkeptN
    obtain ⟨r, hr, rfl⟩ := lookup_eq_some h.indexed hm
    refine ⟨i', j', by rw [hm, Option.bind_some, hi], by rw [hn, Option.bind_some, hj], ?_⟩
    rw [linksOf_freeze h hr hi, Links.along_rename, IdSet.mem_filterMap]
    exact ⟨j, linksOf_eq hr ▸ hmem, hj⟩

theorem headAt_freeze (h : Sound g) (hkept : g.keeps n = true) :
    g.freeze.headAt n = g.headAt n := by
  rw [headAt, headAt, lookup_freeze h]
  cases hn : g.lookup n with
  | none => rfl
  | some i =>
    rw [← isSome_finalId_lookup h.indexed hn] at hkept
    obtain ⟨j, hij⟩ := Option.isSome_iff_exists.1 hkept
    obtain ⟨r, hr, rfl⟩ := lookup_eq_some h.indexed hn
    rw [Option.bind_some, hij, Option.bind_some, Option.bind_some, linksOf_freeze h hr hij,
      linksOf_eq hr]
    rfl

/-- The nodes at the final ids are the nodes that are kept. -/
theorem nodesOf_freeze (h : Sound g) (ids : List ResourceId) (hids : ∀ i ∈ ids, i < g.size) :
    g.freeze.nodesOf (ids.filterMap g.finalId) = (g.nodesOf ids).filter g.keeps := by
  induction ids with
  | nil => rfl
  | cons i rest ih =>
    have ih := ih fun j hj => hids j (List.mem_cons_of_mem _ hj)
    obtain ⟨r, hr⟩ := exists_resource (hids i List.mem_cons_self)
    rw [nodesOf_cons hr, List.filter_cons, ← isSome_finalId_lookup h.indexed
      (lookup_node h.indexed hr), List.filterMap_cons]
    cases hij : g.finalId i with
    | none => simpa using ih
    | some j =>
      have hstands := get_freeze_finalId h hr hij
      simpa [nodesOf_cons hstands, moved] using ih

theorem orderAt_freeze (h : Sound g) (hkept : g.keeps n = true) :
    g.freeze.orderAt n = (g.orderAt n).map (·.filter g.keeps) := by
  rw [orderAt, orderAt, lookup_freeze h]
  cases hn : g.lookup n with
  | none => rfl
  | some i =>
    rw [← isSome_finalId_lookup h.indexed hn] at hkept
    obtain ⟨j, hij⟩ := Option.isSome_iff_exists.1 hkept
    obtain ⟨r, hr, rfl⟩ := lookup_eq_some h.indexed hn
    rw [Option.bind_some, hij, Option.bind_some, Option.bind_some, linksOf_freeze h hr hij]
    show Option.map g.freeze.nodesOf (r.links.orderedMembers.map (·.filterMap g.finalId)) = _
    rw [linksOf_eq hr]
    cases horder : r.links.orderedMembers with
    | none => rfl
    | some ids =>
      refine congrArg some (nodesOf_freeze h ids fun m hm => ?_)
      exact h.member_lt (h.linked.ordered_member i ids (linksOf_eq hr ▸ horder) m hm)

/-! ## Finished graphs -/

theorem sound_beforeFreeze (h : Sound g) : Sound g.readMemberLists.dropSchemesFromCollections :=
  sound_dropSchemes (sound_readMemberLists h)

theorem keeps_beforeFreeze : g.readMemberLists.dropSchemesFromCollections.keeps = g.keeps :=
  keeps_dropSchemes.trans keeps_readMemberLists

theorem isSome_lookup_completed (h : Sound g) : (g.completed.lookup n).isSome = g.keeps n := by
  rw [← keeps_beforeFreeze]
  exact isSome_lookup_freeze (sound_beforeFreeze h)

theorem kindAt_completed (h : Sound g) : g.completed.kindAt n = g.kindAt n := by
  have hfrozen := kindAt_freeze (sound_beforeFreeze h) (n := n)
  rw [kindAt_dropSchemes, kindAt_readMemberLists] at hfrozen
  exact hfrozen

/-- A finished graph has the relations between the nodes that are kept, except those of schemes to
collections. -/
theorem relates_completed (h : Sound g) : g.completed.Relates tie m n ↔
    g.Relates tie m n ∧ (tie = .members → g.kindAt n ≠ .conceptScheme) ∧
      (tie = .inCollections → g.kindAt m ≠ .conceptScheme) ∧
      g.keeps m = true ∧ g.keeps n = true := by
  show g.readMemberLists.dropSchemesFromCollections.freeze.Relates tie m n ↔ _
  rw [relates_freeze (sound_beforeFreeze h), relates_dropSchemes (sound_readMemberLists h),
    relates_readMemberLists, kindAt_readMemberLists, keeps_beforeFreeze]
  simp only [and_assoc]

theorem headAt_completed (h : Sound g) (hkept : g.keeps n = true) :
    g.completed.headAt n = g.headAt n := by
  have hfrozen := headAt_freeze (sound_beforeFreeze h) (n := n) (by rwa [keeps_beforeFreeze])
  rw [headAt_dropSchemes, headAt_readMemberLists] at hfrozen
  exact hfrozen

/-- A finished graph has the orders that were read, without schemes and what is left out. -/
theorem orderAt_completed (h : Sound g) (hkept : g.keeps n = true) : g.completed.orderAt n =
    (g.readMemberLists.orderAt n).map
      (·.filter fun e => g.kindAt e != .conceptScheme && g.keeps e) := by
  have hfrozen := orderAt_freeze (sound_beforeFreeze h) (n := n) (by rwa [keeps_beforeFreeze])
  rw [keeps_beforeFreeze, orderAt_dropSchemes (sound_readMemberLists h), kindAt_readMemberLists,
    Option.map_map] at hfrozen
  refine hfrozen.trans (congrArg (Option.map · _) (funext fun nodes => ?_))
  rw [Function.comp_apply, List.filter_filter]
  exact List.filter_congr fun e _ => Bool.and_comm ..

/-! ## What is counted -/

/-- Taking in a relation leaves out no resource. -/
theorem keptByRelations_pruned (k : Nat) : KeptByRelations fun g => g.counters.pruned = k where
  ensure := fun g n hg => by rw [counters_ensure, hg]
  request := fun g id requested cause hg => by
    rw [request_eq]
    exact hg
  updateLinks := fun _ _ _ hg => hg
  report := fun _ _ hg => hg
  ignore := fun _ hg => hg
  linkCell := fun _ _ _ _ hg => hg

theorem pruned_accept {t : Triple} (h : g.accept t = .ok g') :
    g'.counters.pruned = g.counters.pruned :=
  (keptByRelations_pruned _).accept (fun _ hg => hg) (fun _ _ _ hg => hg) rfl h

end ResourceGraph

/-- Before a graph is finished, nothing has been left out. -/
theorem Reachable.pruned_eq_zero {g : ResourceGraph} (h : Reachable g) (hopen : g.frozen = false) :
    g.counters.pruned = 0 := by
  induction h with
  | new c => rfl
  | ingest t _ htaken ih =>
    obtain ⟨hopen', haccepted⟩ := ResourceGraph.of_ingest htaken
    rw [ResourceGraph.pruned_accept haccepted]
    exact ih hopen'
  | finish _ hfinished _ =>
    obtain ⟨_, rfl⟩ := ResourceGraph.of_finish hfinished
    exact absurd (ResourceGraph.frozen_freeze.symm.trans hopen) (by decide)

/-! ## Restriction -/

/-- A resource without what depends on the graph it is in. -/
def Resource.bare (r : Resource) : Resource :=
  { r with id := 0, links := {} }

namespace ResourceGraph

variable {g : ResourceGraph}

theorem bare_withOrder (r : Resource) : (g.withOrder r).bare = r.bare :=
  withOrder_keeps Resource.bare (fun _ _ => rfl) r

/-- Changing resources in their places changes none of those that are kept, if only ids and links
change. -/
theorem retained_map {g' : ResourceGraph} {change : Resource → Resource}
    (hmap : g'.resources = g.resources.map change)
    (hconfiguration : g'.configuration = g.configuration)
    (hbare : ∀ r, (change r).bare = r.bare) :
    (g'.resources.toList.filter g'.retains).map Resource.bare =
      (g.resources.toList.filter g.retains).map Resource.bare := by
  have hretained : g'.retains ∘ change = g.retains := by
    funext r
    have hkind : (change r).bare.kind = r.bare.kind := congrArg Resource.kind (hbare r)
    change (change r).kind = r.kind at hkind
    simp [retains, hconfiguration, hkind]
  rw [hmap, Array.toList_map, List.filter_map, hretained, List.map_map]
  exact List.map_congr_left fun r _ => hbare r

/-- Freezing leaves the kept resources in their order. -/
theorem retained_freeze (h : Sound g) : g.freeze.resources.toList.map Resource.bare =
    (g.resources.toList.filter g.retains).map Resource.bare := by
  rw [freeze_eq]
  by_cases hfilters : g.configuration.filtersByType = true
  · have hretained : g.retains = fun r => r.kind.isKnown := by
      funext r
      simp [retains, hfilters]
    rw [if_pos hfilters]
    show g.prune.resources.toList.map Resource.bare = _
    rw [toList_prune h, List.map_map, hretained]
    exact List.map_congr_left fun r _ => rfl
  · have hretained : g.retains = fun _ => true := by
      funext r
      simp [retains, hfilters]
    rw [if_neg hfilters, hretained, List.filter_true]
    rfl

theorem retained_completed (h : Sound g) : g.completed.resources.toList.map Resource.bare =
    (g.resources.toList.filter g.retains).map Resource.bare := by
  rw [show g.completed.resources = g.readMemberLists.dropSchemesFromCollections.freeze.resources
    from rfl, retained_freeze (sound_beforeFreeze h)]
  have hread : g.readMemberLists.resources = g.resources.map g.withOrder := rfl
  have hdropped : g.readMemberLists.dropSchemesFromCollections.resources =
      g.readMemberLists.resources.map fun r =>
        { r with links := g.readMemberLists.linksWithoutSchemes r } := rfl
  exact (retained_map hdropped rfl fun _ => rfl).trans (retained_map hread rfl bare_withOrder)

/-- If nothing was left out before, all that is left out is counted. -/
theorem pruned_freeze (hnone : g.counters.pruned = 0) : g.freeze.counters.pruned =
    if g.configuration.filtersByType then g.size - g.freeze.size else 0 := by
  rw [freeze_eq]
  by_cases hfilters : g.configuration.filtersByType = true
  · rw [if_pos hfilters, if_pos hfilters]
    show g.prune.counters.pruned = g.size - g.prune.size
    unfold prune
    split
    · rw [hnone, Nat.sub_self]
    · rfl
  · rw [if_neg hfilters, if_neg hfilters]
    exact hnone

/-- The resources that are not kept are counted. -/
theorem pruned_completed (h : Sound g) (hpruned : g.counters.pruned = 0) :
    g.completed.counters.pruned = g.resources.toList.countP fun r => !g.retains r := by
  have hbefore : g.readMemberLists.dropSchemesFromCollections.size = g.size := by
    simp [size, dropSchemesFromCollections, readMemberLists]
  have hafter : g.completed.size = g.resources.toList.countP g.retains := by
    have hsame := congrArg List.length (retained_completed h)
    rwa [List.length_map, List.length_map, ← List.countP_eq_length_filter, Array.length_toList]
      at hsame
  have hall : g.size = g.resources.toList.countP g.retains +
      g.resources.toList.countP fun r => !g.retains r := by
    rw [size, ← Array.length_toList]
    simpa using List.length_eq_countP_add_countP g.retains (l := g.resources.toList)
  have hcounted : g.completed.counters.pruned =
      if g.configuration.filtersByType then
        g.readMemberLists.dropSchemesFromCollections.size - g.completed.size
      else 0 := pruned_freeze hpruned
  rw [hcounted, hbefore]
  split
  · omega
  · next hopen =>
    have hretained : ∀ r, g.retains r = true := fun r => by simp [retains, hopen]
    simp [hretained]

end ResourceGraph

/-- One graph is the restriction of another to the resources that are kept when it is finished. They
are left in their order, with their nodes, kinds, URLs and texts, and just their nodes are found.
They are related as they were, but for schemes among the members of collections, which are members
no more. What is not kept is counted. -/
structure Restricts (f g : ResourceGraph) : Prop where
  resources : f.resources.toList.map Resource.bare =
    (g.resources.toList.filter g.retains).map Resource.bare
  lookup : ∀ n, (f.lookup n).isSome = g.keeps n
  relates : ∀ tie m n, tie ≠ .members → tie ≠ .inCollections → g.keeps m = true →
    g.keeps n = true → (f.Relates tie m n ↔ g.Relates tie m n)
  members : ∀ k m, g.keeps k = true → g.keeps m = true →
    (f.Relates .members k m ↔ g.Relates .members k m ∧ g.kindAt m ≠ .conceptScheme)
  inCollections : ∀ m k, g.keeps m = true → g.keeps k = true →
    (f.Relates .inCollections m k ↔ g.Relates .inCollections m k ∧ g.kindAt m ≠ .conceptScheme)
  pruned : f.counters.pruned = g.resources.toList.countP fun r => !g.retains r

/-- Finishing a graph restricts it to the resources that are kept: those of known kind where schemes
or collections are shown, and all of them otherwise. -/
theorem finish_restricts {g : ResourceGraph} (h : Reachable g) (hopen : g.frozen = false) :
    ∃ f, g.finish = .ok f ∧ Restricts f g := by
  refine ⟨g.completed, ResourceGraph.finish_eq hopen, ?_⟩
  constructor
  · exact ResourceGraph.retained_completed h.sound
  · exact fun n => ResourceGraph.isSome_lookup_completed h.sound
  · intro tie m n hnotMembers hnotInCollections hkeptM hkeptN
    rw [ResourceGraph.relates_completed h.sound]
    simp [hnotMembers, hnotInCollections, hkeptM, hkeptN]
  · intro k m hkeptK hkeptM
    rw [ResourceGraph.relates_completed h.sound]
    simp [hkeptK, hkeptM]
  · intro m k hkeptM hkeptK
    rw [ResourceGraph.relates_completed h.sound]
    simp [hkeptM, hkeptK]
  · exact ResourceGraph.pruned_completed h.sound (h.pruned_eq_zero hopen)

/-- Statements about a collection with a scheme among its members, and a node of no kind. -/
def mixedStatements : List Triple := [
  ⟨.iri "urn:title", "http://www.w3.org/2004/02/skos/core#prefLabel", .literal ⟨"Title", none⟩⟩,
  ⟨.iri "urn:k", "http://www.w3.org/2004/02/skos/core#member", .node (.iri "urn:s")⟩,
  ⟨.iri "urn:k", "http://www.w3.org/2004/02/skos/core#member", .node (.iri "urn:a")⟩,
  ⟨.iri "urn:a", "http://www.w3.org/2004/02/skos/core#topConceptOf", .node (.iri "urn:s")⟩]

theorem finish_restricts_mixed :
    ∃ g, (ResourceGraph.new { conceptSchemes := true, collections := true }).ingestAll
        mixedStatements = .ok g ∧ Reachable g ∧ g.frozen = false ∧
      ∃ f, g.finish = .ok f ∧ Restricts f g := by
  obtain ⟨g, htaken, _, _, hopen, _⟩ :=
    ResourceGraph.exists_ingestAll mixedStatements
      (Sound.new { conceptSchemes := true, collections := true }) rfl
  have hreachable : Reachable g := (Reachable.new _).ingestAll htaken
  exact ⟨g, htaken, hreachable, hopen, finish_restricts hreachable hopen⟩

end Thesaurus
