import Thesaurus.Proofs.Forest.Exploration
import Thesaurus.Proofs.Forest.Schemes

/-!
# Roots, and what is left for promotion

Every root is owned at the top. Unless collections are shown without schemes, whatever no root leads
to is led to by something else that no root leads to, and so on: without cycles nothing is left.

- `Phases.root_owned`: each root is owned at the top.
- `Phases.collection_visited`, `Phases.outside_visited`: by climbing up from a resource, a root is
  found that leads to it.
- `Phases.concept_visited`: which phase a concept is visited in.
- `Phases.nothing_left`: once trees were grown from all roots, everything is visited.
- `roots_kept`: the roots of the forest are those that were chosen.
-/

namespace Thesaurus

open Relation (TransGen)

namespace Traversal

variable {g : ResourceGraph} {p : Progress} {r : Resource} {id : ResourceId}

/-- What is left is promoted one resource after another. -/
theorem promote_eq (p : Progress) : promote g p =
    match p.unvisited.toList with
    | [] => .ok ([], p)
    | id :: _ =>
      match grow g { target := id } p with
      | .error d => .error d
      | .ok (tree, later) =>
        match promote g later with
        | .error d => .error d
        | .ok (trees, last) => .ok (tree :: trees, last) := by
  rw [promote]
  split
  · next hnone => rw [hnone]
  · next hfirst =>
    rw [hfirst]
    dsimp only
    split
    · next hfailed => rw [hfailed]
    · next tree later hgrown =>
      cases hlast : promote g later <;> simp only [hgrown, hlast]

/-- If everything is visited, nothing is promoted. -/
theorem promote_of_nothing (h : p.unvisited.toList = []) : promote g p = .ok ([], p) := by
  rw [promote_eq, h]

/-- The first resource that is left is promoted before the others. -/
theorem promote_of_first {rest : List ResourceId} {t : Tree Entry} {ts : Forest} {q last : Progress}
    (hfirst : p.unvisited.toList = id :: rest) (hgrown : grow g { target := id } p = .ok (t, q))
    (hlater : promote g q = .ok (ts, last)) : promote g p = .ok (t :: ts, last) := by
  rw [promote_eq, hfirst]
  dsimp only
  rw [hgrown]
  dsimp only
  rw [hlater]

namespace Phases

variable (ph : Phases g)

/-! ## Roots are at the top -/

/-- Root concepts are owned at the top: what is broader is not outside all schemes, so that no root
concept leads to it. -/
theorem concept_root (h : Sound g) (hapart : g.PrintsApart) (hr : g.Holds r)
    (hroot : g.isRootConcept r = true) :
    ∃ t ∈ ph.trees, t.value.reference = false ∧ t.value.view = r.view := by
  have hconcept := (outside_of_isRootConcept hroot).1
  have hbefore := mem_typedIds hr (by rw [hconcept]; rfl)
  have hafter := ph.concepts.visited r.id ((mem_rootConcepts h.indexed).2 ⟨r, hr, hroot, rfl⟩)
  obtain ⟨t, ht, hroot'⟩ :=
    ph.concepts.exists_root h hapart (start_valid g) hr hbefore hafter <| by
      intro above t path hsituated hview hshows htrail
      cases path with
      | nil => rfl
      | cons parent rest =>
        obtain ⟨hparentConcept, houtside⟩ :=
          ph.outside_of_concepts h hapart hsituated hview hshows htrail parent
            (List.mem_cons_of_mem _ List.mem_cons_self)
        obtain ⟨_, hnarrower⟩ :=
          (htrail.1.led parent rfl).narrower h htrail.2.1.holds hr hparentConcept
        have hbroader := (h.linked.narrower_iff parent.id r.id).1 hnarrower
        rw [hr.linksOf] at hbroader
        rw [inside_of_broader h hroot hbroader] at houtside
        cases houtside
  exact ⟨t, ph.mem_trees.2 (.inl (ph.mem_ofRoots.2 (.inl ht))), hroot'⟩

/-- A collection that is in no collection is owned at the top. -/
theorem collection_root (h : Sound g) (hapart : g.PrintsApart) (hr : g.Holds r)
    (hkind : r.kind.isCollection = true) (hnone : r.links.inCollections.isEmpty = true) :
    ∃ t ∈ ph.trees, t.value.reference = false ∧ t.value.view = r.view := by
  have hknown := Kind.isKnown_of_isCollection hkind
  refine ph.planted.exists_root h hapart (start_valid g) hr (mem_typedIds hr hknown)
    (ph.visited_atEnd r.id) ?_
  intro above t path _ _ _ htrail
  cases path with
  | nil => rfl
  | cons parent rest =>
    obtain ⟨_, hmember⟩ := (htrail.1.led parent rfl).member h htrail.2.1.holds hr
      (Kind.not_concept_of_isCollection hkind)
    rw [← htrail.2.1.holds.linksOf] at hmember
    have hholder := (h.linked.member_iff parent.id r.id).1 hmember
    rw [hr.linksOf, IdSet.mem_def, List.isEmpty_iff.1 hnone] at hholder
    cases hholder

/-- Each root is owned at the top. -/
theorem root_owned (h : Sound g) (hapart : g.PrintsApart)
    (hid : id ∈ plannedRoots g) : ∃ t ∈ ph.trees, IsRootOf g t id := by
  rcases mem_plannedRoots.1 hid with hid | hid | hid
  · obtain ⟨r, hr, hroot, rfl⟩ := (mem_rootConcepts h.indexed).1 hid
    obtain ⟨t, ht, howned, hview⟩ := ph.concept_root h hapart hr hroot
    exact ⟨t, ht, ⟨r, hr, rfl, hview⟩, howned⟩
  · obtain ⟨r, hr, ⟨hscheme, hshown⟩, rfl⟩ := (mem_rootSchemes h.indexed).1 hid
    obtain ⟨t, ht, howned, hview⟩ := ph.scheme_root h hapart hshown hr hscheme
    exact ⟨t, ht, ⟨r, hr, rfl, hview⟩, howned⟩
  · obtain ⟨r, hr, ⟨hcollection, _, hnone⟩, rfl⟩ := (mem_rootCollections h.indexed).1 hid
    obtain ⟨t, ht, howned, hview⟩ := ph.collection_root h hapart hr hcollection hnone
    exact ⟨t, ht, ⟨r, hr, rfl, hview⟩, howned⟩

/-! ## Roots lead everywhere -/

/-- Without cycles every collection is a root, or a root leads to it through collections. -/
theorem collection_visited (h : Sound g) (hexact : g.OrdersExact) (hacyclic : g.Acyclic) :
    ∀ k, (g.kindOf k).isCollection = true → k ∉ ph.afterCollections.unvisited := by
  have hexplored : ph.afterCollections.Explored g (fun _ => True) g.Nests :=
    growEach_explored (explores_nests h hexact) h (start_valid g)
      (fun _ hid => apt_of_mem_roots h.indexed hid) (fun _ _ _ => trivial)
      (start_explored g _ _) ph.grown_roots
  -- by induction from the outermost collections, which are roots
  intro k
  induction k using hacyclic.climb_nests.induction with
  | _ k ih =>
    intro hcollection
    obtain ⟨r, hr, rfl⟩ := ResourceGraph.exists_held h.indexed
      (ResourceGraph.lt_size_of_isKnown (Kind.isKnown_of_isCollection hcollection))
    cases hnone : r.links.inCollections.isEmpty with
    | true =>
      have hconsidered := h.considered r.id
      rw [hr.kindOf] at hcollection hconsidered
      have hshown : g.configuration.collections = true := by
        cases hkind : r.kind <;> simp_all [Kind.isCollection, Configuration.considersKind]
      exact ph.collections.visited r.id
        ((mem_rootCollections h.indexed).2 ⟨r, hr, ⟨hcollection, hshown, hnone⟩, rfl⟩)
    | false =>
      obtain ⟨holder, hmem⟩ := List.isEmpty_eq_false_iff_exists_mem.1 hnone
      have hmember : r.id ∈ (g.linksOf holder).members := by
        refine (h.linked.member_iff holder r.id).2 ?_
        rw [hr.linksOf]
        exact hmem
      have hholderKind := h.linked.collection_kind holder r.id hmember
      exact hexplored.closed (Kind.isKnown_of_isCollection hholderKind)
        (ih holder ⟨hmember, hcollection⟩ hholderKind) ⟨hmember, hcollection⟩

/-- Without cycles a concept outside all schemes is a root, or a root leads to it through such
concepts, or it is a member of a collection and nothing below it is outside all schemes. -/
theorem outside_visited (h : Sound g) (hacyclic : g.Acyclic)
    (hmode : g.configuration.conceptSchemes = true ∨ g.configuration.collections = false) :
    ∀ c, g.kindOf c = .concept → g.shownOutside c = true →
      c ∉ ph.afterConcepts.unvisited ∨
        (∃ k, c ∈ (g.linksOf k).members) ∧ ∀ n, g.Narrower c n → g.shownOutside n = false := by
  have hexplored := growEach_explored (explores_outside h) h (start_valid g)
    (fun _ hid => apt_of_rootConcept h.indexed hid)
    (fun _ hr hid => isOutside_of_mem_rootConcepts h.indexed hr hid)
    (start_explored g _ _) ph.concepts.grown
  -- by induction from the top: a concept is a root, a member, or below a visited one
  intro c
  induction c using hacyclic.climb_narrower h |>.induction with
  | _ c ih =>
    intro hconcept houtside
    obtain ⟨r, hr, rfl⟩ := ResourceGraph.exists_held h.indexed
      (ResourceGraph.lt_size_of_kindOf (by rw [hconcept]; exact Kind.noConfusion))
    by_cases habove : ∃ b, g.Narrower b r.id ∧ g.shownOutside b = true
    · obtain ⟨b, hnarrower, hbroaderOutside⟩ := habove
      have hbroaderConcept := (h.linked.narrower_kinds b r.id hnarrower).1
      rcases ih b hnarrower hbroaderConcept hbroaderOutside with hvisited | ⟨_, hbelow⟩
      · have hbroaderKnown : (g.kindOf b).isKnown = true := by rw [hbroaderConcept]; rfl
        exact .inl (hexplored.closed hbroaderKnown hvisited ⟨hnarrower, houtside⟩)
      · -- the concept itself is below the broader one
        rw [hbelow r.id hnarrower] at houtside
        cases houtside
    · have htop : ∀ b ∈ r.links.broader, g.shownOutside b = false := by
        intro b hb
        rw [← hr.linksOf] at hb
        exact Bool.eq_false_iff.2 fun hbroaderOutside =>
          habove ⟨b, (h.linked.narrower_iff b r.id).2 hb, hbroaderOutside⟩
      rcases isRootConcept_or_member h hmode (hr.kindOf ▸ hconcept) houtside htop with
        hroot | ⟨⟨k, hk⟩, hbelow⟩
      · exact .inl (ph.concepts.visited r.id ((mem_rootConcepts h.indexed).2 ⟨r, hr, hroot, rfl⟩))
      · refine .inr ⟨⟨k, (h.linked.member_iff k r.id).2 ?_⟩, fun n hn => hbelow n ?_⟩
        · rwa [hr.linksOf]
        · rwa [ResourceGraph.Narrower, hr.linksOf] at hn

/-- Without cycles every concept is visited: in the phase of the schemes if it belongs to one, and
otherwise from a root concept, or as a member of a collection. -/
theorem concept_visited (h : Sound g) (hexact : g.OrdersExact) (hacyclic : g.Acyclic)
    (hmode : g.configuration.conceptSchemes = true ∨ g.configuration.collections = false)
    (hr : g.Holds r) (hkind : r.kind = .concept) : r.id ∉ ph.afterCollections.unvisited := by
  intro hleft
  have hschemeLeft := ph.collections.fewer r.id hleft
  cases houtside : g.shownOutside r.id with
  | false =>
    exact visited_of_scheme h ph.schemes.valid (fun _ => ph.scheme_visited h) hr hkind houtside
      hschemeLeft
  | true =>
    rcases ph.outside_visited h hacyclic hmode r.id (hr.kindOf.trans hkind) houtside with
      hvisited | ⟨⟨k, hmember⟩, _⟩
    · exact hvisited (ph.schemes.fewer r.id hschemeLeft)
    · have hholder := ph.collection_visited h hexact hacyclic k
        (h.linked.collection_kind k r.id hmember)
      exact visited_of_collection h ph.collections.valid hholder hmember hr hkind hleft

/-- Without cycles everything is visited once trees were grown from all roots. -/
theorem nothing_left (h : Sound g) (hexact : g.OrdersExact) (hacyclic : g.Acyclic)
    (hmode : g.configuration.conceptSchemes = true ∨ g.configuration.collections = false) :
    ph.afterCollections.unvisited.toList = [] := by
  refine List.eq_nil_iff_forall_not_mem.2 fun id hleft => ?_
  have hknown := ph.collections.valid.typed id hleft
  have hcollections := ph.collection_visited h hexact hacyclic
  obtain ⟨r, hr, rfl⟩ :=
    ResourceGraph.exists_held h.indexed (ResourceGraph.lt_size_of_isKnown hknown)
  cases hkind : r.kind with
  | unknown =>
    rw [hr.kindOf, hkind] at hknown
    cases hknown
  | concept => exact ph.concept_visited h hexact hacyclic hmode hr hkind hleft
  | conceptScheme =>
    have hconsidered := h.considered r.id
    rw [hr.kindOf, hkind] at hconsidered
    exact ph.scheme_visited h hr hkind hconsidered (ph.collections.fewer r.id hleft)
  | collection => exact hcollections r.id (by rw [hr.kindOf, hkind]; rfl) hleft
  | orderedCollection => exact hcollections r.id (by rw [hr.kindOf, hkind]; rfl) hleft

/-- If nothing is left, the trees are those of the roots. -/
theorem trees_eq_ofRoots (hnone : ph.afterCollections.unvisited.toList = []) :
    ph.trees = ph.ofRoots := by
  have hpromoted := ph.promoted
  rw [promote_of_nothing hnone] at hpromoted
  injection hpromoted with hboth
  have hothers : [] = ph.ofOthers := congrArg Prod.fst hboth
  rw [trees, ← hothers, List.append_nil]

/-- Each tree of a root owns the root at its top. -/
theorem chosen : ∀ t ∈ ph.ofRoots, ∃ id ∈ plannedRoots g, IsRootOf g t id := by
  intro t ht
  rcases ph.mem_ofRoots.1 ht with ht | ht | ht
  · obtain ⟨id, hid, hroot⟩ := ph.concepts.chosen t ht
    exact ⟨id, mem_plannedRoots.2 (.inl hid), hroot⟩
  · obtain ⟨id, hid, hroot⟩ := ph.schemes.chosen t ht
    exact ⟨id, mem_plannedRoots.2 (.inr (.inl hid)), hroot⟩
  · obtain ⟨id, hid, hroot⟩ := ph.collections.chosen t ht
    exact ⟨id, mem_plannedRoots.2 (.inr (.inr hid)), hroot⟩

end Phases

end Traversal

open Traversal

/-! ## The roots of the forest -/

/-- Whether the roots of a forest own the given resources, each once, in whatever order. -/
def Forest.HasRoots (g : ResourceGraph) (f : Forest) (planned : List ResourceId) : Prop :=
  ∃ ids, ids.Perm planned ∧ List.Forall₂ (IsRootOf g) f ids

/-- If each of some resources is owned at the top, and nothing else is, the roots are these. -/
theorem Forest.hasRoots_of_owned {g : ResourceGraph} {f : Forest} {planned : List ResourceId}
    (h : Sound g) (hapart : g.PrintsApart) (hnodup : planned.Nodup) (hiris : f.rootIris.Nodup)
    (howned : ∀ id ∈ planned, ∃ t ∈ f, IsRootOf g t id)
    (hchosen : ∀ t ∈ f, ∃ id ∈ planned, IsRootOf g t id) : f.HasRoots g planned := by
  have hnamed : ∀ {t id}, IsRootOf g t id →
      idOfView g t.value.view = id ∧ g.viewOf id = t.value.view := by
    rintro t id ⟨⟨r, hr, rfl, hview⟩, _⟩
    rw [hview, hr.viewOf]
    exact ⟨idOfView_view h.indexed hapart hr, rfl⟩
  refine ⟨f.map fun t => idOfView g t.value.view, ?_, ?_⟩
  · -- ids are different where the IRIs of the roots are
    have hdistinct : (f.map fun t => idOfView g t.value.view).Nodup := by
      refine List.Nodup.of_map (fun id => (g.viewOf id).iri) ?_
      rw [List.map_map]
      have hsame : f.map ((fun id => (g.viewOf id).iri) ∘ fun t => idOfView g t.value.view) =
          f.rootIris := by
        refine List.map_congr_left fun t ht => ?_
        obtain ⟨id, _, hroot⟩ := hchosen t ht
        obtain ⟨heq, hview⟩ := hnamed hroot
        rw [Function.comp_apply, heq, hview]
        rfl
      rwa [hsame]
    refine (List.perm_ext_iff_of_nodup hdistinct hnodup).2 fun id => ⟨fun hid => ?_, fun hid => ?_⟩
    · obtain ⟨t, ht, rfl⟩ := List.mem_map.1 hid
      obtain ⟨id, hmem, hroot⟩ := hchosen t ht
      rwa [(hnamed hroot).1]
    · obtain ⟨t, ht, hroot⟩ := howned id hid
      exact List.mem_map.2 ⟨t, ht, (hnamed hroot).1⟩
  · rw [List.forall₂_map_right_iff, List.forall₂_same]
    intro t ht
    obtain ⟨id, _, hroot⟩ := hchosen t ht
    rwa [(hnamed hroot).1]

/-- Every root of a reachable graph is owned at the top of its forest. Where schemes are shown or
collections are not, and nothing lies on a cycle, everything is visited once trees were grown from
the roots: there is nothing to promote, and the forest has no other roots. -/
theorem roots_kept (g : ResourceGraph) (hreach : Reachable g) (hapart : g.PrintsApart) :
    ∃ built planned, build g = .ok built ∧ roots g = .ok planned ∧
      (∀ id ∈ planned, ∃ t ∈ built.forest, IsRootOf g t id) ∧
      ((g.configuration.conceptSchemes = true ∨ g.configuration.collections = false) →
        g.Acyclic →
        (∃ trees last, growEach g planned { unvisited := typedIds g } = .ok (trees, last) ∧
          promote g last = .ok ([], last)) ∧
        built.forest.HasRoots g planned) := by
  have hsound := hreach.sound
  obtain ⟨ph⟩ := exists_phases hsound
  -- sorting the roots drops none of them, as no two print alike
  have hsorted := ph.sorted_perm hsound hapart
  have howned : ∀ id ∈ plannedRoots g, ∃ t ∈ sortSiblings ph.trees, IsRootOf g t id := by
    intro id hid
    obtain ⟨t, ht, hroot⟩ := ph.root_owned hsound hapart hid
    exact ⟨t, hsorted.mem_iff.2 ht, hroot⟩
  refine ⟨_, _, ph.build_eq hsound, roots_eq hsound, howned, fun hmode hacyclic => ?_⟩
  have hnone := ph.nothing_left hsound hreach.ordersExact hacyclic hmode
  refine ⟨⟨_, _, ph.grown_roots, promote_of_nothing hnone⟩, ?_⟩
  refine Forest.hasRoots_of_owned hsound hapart (nodup_roots hsound.indexed) ?_ howned ?_
  · have hnames : (Forest.rootIris (sortSiblings ph.trees)).Perm ph.trees.rootIris := hsorted.map _
    exact hnames.nodup_iff.2 (ph.nodup_rootIris hsound hapart)
  · intro t ht
    have hmem := hsorted.mem_iff.1 ht
    rw [ph.trees_eq_ofRoots hnone] at hmem
    exact ph.chosen t hmem

/-- Without members, only the hierarchy of concepts can have cycles. -/
theorem ResourceGraph.acyclic_of_no_members {g : ResourceGraph} (h : Sound g)
    (hacyclic : g.isAcyclic = true)
    (hmembers : ∀ k < g.size, (g.linksOf k).members.toList = []) : g.Acyclic := by
  refine ⟨(ResourceGraph.isAcyclic_iff h).1 hacyclic, fun k hcycle => ?_⟩
  obtain ⟨m, ⟨hmember, _⟩, _⟩ := TransGen.head'_iff.1 hcycle
  have hinside := Sound.lt_size_of_mem (f := (·.members)) rfl hmember
  rw [IdSet.mem_def, hmembers k hinside] at hmember
  cases hmember

theorem smallScheme_acyclic : smallScheme.Acyclic :=
  ResourceGraph.acyclic_of_no_members smallScheme_reachable.sound (by decide +kernel) (by decide)

theorem roots_kept_smallScheme : Reachable smallScheme ∧ smallScheme.PrintsApart ∧
    smallScheme.configuration.conceptSchemes = true ∧ smallScheme.Acyclic ∧
    ∃ built planned, build smallScheme = .ok built ∧ roots smallScheme = .ok planned ∧
      built.forest.HasRoots smallScheme planned := by
  refine ⟨smallScheme_reachable, smallScheme_printsApart, rfl, smallScheme_acyclic, ?_⟩
  obtain ⟨built, planned, hgrown, hchosen, _, hrest⟩ :=
    roots_kept smallScheme smallScheme_reachable smallScheme_printsApart
  exact ⟨built, planned, hgrown, hchosen, (hrest (.inl rfl) smallScheme_acyclic).2⟩

/-- A collection with one member, and a narrower concept that is in no collection. -/
def heldHierarchy : ResourceGraph where
  configuration := { collections := true }
  resources := #[
    { id := 0, node := .iri "urn:k", kind := .collection, links := { members := .ofList [1] } },
    { id := 1, node := .iri "urn:a", kind := .concept,
      links := { narrower := .ofList [2], inCollections := .ofList [0] } },
    { id := 2, node := .iri "urn:b", kind := .concept, links := { broader := .ofList [1] } }]
  index := ⟨[(.iri "urn:k", 0), (.iri "urn:a", 1), (.iri "urn:b", 2)]⟩

-- where collections are shown without schemes, the narrower concept is left without any cycle: it
-- is no root, and the collection, which is the only root, does not lead to it
example : heldHierarchy.isAcyclic = true ∧ roots heldHierarchy = .ok [0] ∧
    (growEach heldHierarchy [0] { unvisited := typedIds heldHierarchy }).toOption.map
      (·.2.unvisited.toList) = some [2] :=
  ⟨by decide +kernel, by decide +kernel, by cbv⟩

end Thesaurus
