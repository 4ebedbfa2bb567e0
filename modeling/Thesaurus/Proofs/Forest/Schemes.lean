import Thesaurus.Proofs.Forest.Trails

/-!
# Schemes and the concepts that belong to them

Root concepts come first and lead to nothing but concepts outside all schemes. Schemes come next and
take in all their concepts, so that nothing of them is left for collections.

- `Phases.outside_of_concepts`, `Phases.in_scheme`: what is owned in the first two phases.
- `Phases.scheme_root`: schemes are owned at the top.
- `Phases.concept_placed`: which phase owns the concepts that belong to schemes.
- `Forest.KeepsSchemes`, `schemes_kept`: such concepts are owned below a scheme of theirs, with
  nothing but its concepts in between.
-/

namespace Thesaurus

namespace Traversal

variable {g : ResourceGraph} {r : Resource} {id : ResourceId} {above : List Entry}
  {t : Tree Entry} {path : List Resource} {f : Forest}

/-- Every resource of known kind is there to be visited at the start. -/
theorem mem_typedIds (hr : g.Holds r) (hknown : r.kind.isKnown = true) : r.id ∈ typedIds g := by
  refine IdSet.mem_filter.2 ⟨IdSet.mem_below.2 hr.lt_size, ?_⟩
  rw [hr.kindOf]
  exact hknown

/-- Root concepts are concepts outside all schemes. -/
theorem isOutside_of_mem_rootConcepts (h : Indexed g) (hr : g.Holds r)
    (hid : r.id ∈ plannedIds (rootConcepts g)) : g.IsOutside r := by
  obtain ⟨s, hs, hroot, hsame⟩ := (mem_rootConcepts h).1 hid
  rw [hr.eq hs hsame.symm]
  exact outside_of_isRootConcept hroot

namespace Phases

variable (ph : Phases g)

/-- The trees of root concepts hold nothing but concepts outside all schemes. -/
theorem outside_of_concepts (h : Sound g) (hapart : g.PrintsApart)
    (ht : Tree.Situated ph.ofConcepts above t) (hview : t.value.view = r.view)
    (hshows : ShowPath g above path) (htrail : g.Trail (r :: path)) :
    ∀ q ∈ r :: path, g.IsOutside q := by
  obtain ⟨root, hlast, hroot⟩ := ph.concepts.outermost h hapart ht hview hshows htrail
  have hholds := htrail.holds root (List.mem_of_getLast? hlast)
  refine htrail.all (ResourceGraph.isOutside_handsDown h) fun q hq => ?_
  rw [hlast, Option.mem_some_iff] at hq
  subst hq
  exact isOutside_of_mem_rootConcepts h.indexed hholds hroot

/-- What root concepts lead to is no scheme, and belongs to none. -/
theorem not_visited_by_concepts (h : Sound g) (hapart : g.PrintsApart) (hr : g.Holds r)
    (hknown : r.kind.isKnown = true) (hother : ¬ g.IsOutside r) :
    r.id ∈ ph.afterConcepts.unvisited := by
  by_contra hvisited
  obtain ⟨above, t, path, hsituated, _, hview, hshows, htrail⟩ :=
    ph.concepts.exists_owned h hapart (start_valid g) hr (mem_typedIds hr hknown) hvisited
  exact hother (ph.outside_of_concepts h hapart hsituated hview hshows htrail r List.mem_cons_self)

/-- The trees of schemes hold schemes at the top, and concepts of these below. -/
theorem in_scheme (h : Sound g) (hapart : g.PrintsApart)
    (ht : Tree.Situated ph.ofSchemes above t) (hview : t.value.view = r.view)
    (hshows : ShowPath g above path) (htrail : g.Trail (r :: path)) :
    ∃ inner s, r :: path = inner ++ [s] ∧ s.kind = .conceptScheme ∧
      ∀ q ∈ inner, q.kind = .concept ∧ q.id ∈ s.links.schemeMembers := by
  obtain ⟨root, hlast, hroot⟩ := ph.schemes.outermost h hapart ht hview hshows htrail
  obtain ⟨inner, hsplit⟩ := List.getLast?_eq_some_iff.1 hlast
  obtain ⟨s, hs, ⟨hscheme, _⟩, hsame⟩ := (mem_rootSchemes h.indexed).1 hroot
  have hholds := htrail.holds root (List.mem_of_getLast? hlast)
  obtain rfl := hholds.eq hs hsame.symm
  rw [hsplit] at htrail
  exact ⟨inner, root, hsplit, hscheme, htrail.below_scheme h hscheme⟩

/-- Where schemes are shown, each is owned at the top. -/
theorem scheme_root (h : Sound g) (hapart : g.PrintsApart)
    (hschemes : g.configuration.conceptSchemes = true) (hr : g.Holds r)
    (hkind : r.kind = .conceptScheme) :
    ∃ t ∈ ph.trees, t.value.reference = false ∧ t.value.view = r.view := by
  have hnotOutside : ¬ g.IsOutside r := by
    rintro ⟨hconcept, _⟩
    rw [hkind] at hconcept
    cases hconcept
  have hbefore := ph.not_visited_by_concepts h hapart hr (by rw [hkind]; rfl) hnotOutside
  have hafter := ph.scheme_visited h hr hkind hschemes
  obtain ⟨t, ht, hroot⟩ := ph.schemes.exists_root h hapart ph.concepts.valid hr hbefore hafter <| by
    intro above t path hsituated hview hshows htrail
    obtain ⟨inner, s, hsplit, _, hbelow⟩ := ph.in_scheme h hapart hsituated hview hshows htrail
    -- the scheme is not among the concepts below another one
    cases inner with
    | nil => exact (List.cons.inj hsplit).2
    | cons q rest =>
      obtain ⟨rfl, _⟩ := List.cons.inj hsplit
      have hconcept := (hbelow _ List.mem_cons_self).1
      rw [hkind] at hconcept
      cases hconcept
  exact ⟨t, ph.mem_trees.2 (.inl (ph.mem_ofRoots.2 (.inr (.inl ht)))), hroot⟩

/-- A concept that belongs to a scheme is visited in the phase of the schemes. -/
theorem scheme_phase (h : Sound g) (hapart : g.PrintsApart) (hr : g.Holds r)
    (hkind : r.kind = .concept) (hinside : g.shownOutside r.id = false) :
    r.id ∈ ph.afterConcepts.unvisited ∧ r.id ∉ ph.afterSchemes.unvisited := by
  constructor
  · refine ph.not_visited_by_concepts h hapart hr (by rw [hkind]; rfl) ?_
    rintro ⟨_, houtside⟩
    rw [hinside] at houtside
    cases houtside
  · exact visited_of_scheme h ph.schemes.valid (fun _ => ph.scheme_visited h) hr hkind hinside

/-- An owned node that shows a concept of a scheme stands in the tree of a scheme. -/
theorem concept_placed (h : Sound g) (hapart : g.PrintsApart) (hr : g.Holds r)
    (hkind : r.kind = .concept) (hinside : g.shownOutside r.id = false)
    (ht : Tree.Situated ph.trees above t) (howned : t.value.reference = false)
    (hview : t.value.view = r.view) : Tree.Situated ph.ofSchemes above t := by
  obtain ⟨hbefore, hafter⟩ := ph.scheme_phase h hapart hr hkind hinside
  have hlisted : ∀ {f : Forest}, Tree.Situated f above t → r.view ∈ Forest.ownedViews f :=
    fun hsituated => Forest.mem_ownedViews.2 ⟨above, t, hsituated, howned, hview⟩
  -- in the other phases it is not visited yet, or it is visited already
  rcases ht.append with hroots | hothers
  · rcases hroots.append with hboth | hcollections
    · rcases hboth.append with hconcepts | hschemes
      · exact absurd hbefore ((ph.concepts.owned_iff h hapart (start_valid g) hr).1
          (hlisted hconcepts)).2
      · exact hschemes
    · exact absurd ((ph.collections.owned_iff h hapart ph.schemes.valid hr).1
        (hlisted hcollections)).1 hafter
  · have hleft := ((ph.others.owned_iff h hapart ph.collections.valid hr).1 (hlisted hothers)).1
    exact absurd (ph.collections.fewer r.id hleft) hafter

end Phases

end Traversal

open Traversal

/-! ## Placement -/

/-- Whether every scheme is owned at the top of a forest, and every concept that belongs to a scheme
is owned below one of which it is a member, and nowhere else: above it there are only concepts of
that scheme, and the scheme at the top. -/
def Forest.KeepsSchemes (g : ResourceGraph) (f : Forest) : Prop :=
  (∀ s, g.Holds s → s.kind = .conceptScheme →
    ∃ t ∈ f, t.value.reference = false ∧ g.withIri? t.value.iri = some s) ∧
  ∀ c, g.Holds c → c.kind = .concept → c.links.inSchemes.isEmpty = false →
    (∃ above t, Tree.Situated f above t ∧ t.value.reference = false ∧
      g.withIri? t.value.iri = some c) ∧
    ∀ above t, Tree.Situated f above t → t.value.reference = false →
      g.withIri? t.value.iri = some c →
      ∃ (inner : List Resource) (s : Resource),
        above.map (g.withIri? ·.iri) = (inner ++ [s]).map some ∧
        s.kind = .conceptScheme ∧ c.id ∈ s.links.schemeMembers ∧
        ∀ q ∈ inner, q.kind = .concept ∧ q.id ∈ s.links.schemeMembers

/-- Where schemes are shown, the forest of every reachable graph places them and their concepts. -/
theorem schemes_kept (g : ResourceGraph) (hreach : Reachable g) (hapart : g.PrintsApart)
    (hschemes : g.configuration.conceptSchemes = true) :
    ∃ built, build g = .ok built ∧ built.forest.KeepsSchemes g := by
  have hsound := hreach.sound
  obtain ⟨ph⟩ := exists_phases hsound
  have hsorted := ph.sorted_perm hsound hapart
  refine ⟨_, ph.build_eq hsound, fun s hs hscheme => ?_, fun c hc hconcept hinside => ?_⟩
  · obtain ⟨t, ht, howned, hview⟩ := ph.scheme_root hsound hapart hschemes hs hscheme
    exact ⟨t, hsorted.mem_iff.2 ht, howned, withIri?_eq hsound.indexed hapart hs hview⟩
  · have hhidden : g.shownOutside c.id = false := by
      simp [ResourceGraph.shownOutside, hschemes, hc.linksOf, hinside]
    constructor
    · obtain ⟨hbefore, hafter⟩ := ph.scheme_phase hsound hapart hc hconcept hhidden
      obtain ⟨above, t, _, hsituated, howned, hview, _⟩ :=
        ph.schemes.exists_owned hsound hapart ph.concepts.valid hc hbefore hafter
      refine ⟨above, t, hsituated.mono fun s hs => hsorted.mem_iff.2 ?_, howned,
        withIri?_eq hsound.indexed hapart hc hview⟩
      exact ph.mem_trees.2 (.inl (ph.mem_ofRoots.2 (.inr (.inl hs))))
    · intro above t hsituated howned hfound
      have hunsorted : Tree.Situated ph.trees above t :=
        hsituated.mono fun s hs => hsorted.mem_iff.1 hs
      obtain ⟨path, hshows, htrail, hplaced⟩ :=
        Placed.situated_trail ph.planted.placed hunsorted
      obtain ⟨r, hshown⟩ := hplaced.shown
      have hsame := withIri?_eq hsound.indexed hapart hshown.holds hshown.view_eq
      rw [hfound, Option.some.injEq] at hsame
      subst hsame
      have hinPhase := ph.concept_placed hsound hapart hc hconcept hhidden hunsorted howned
        hshown.view_eq
      obtain ⟨inner, s, hsplit, hscheme, hbelow⟩ :=
        ph.in_scheme hsound hapart hinPhase hshown.view_eq hshows ⟨hshown.toFits, htrail⟩
      -- the concept itself is the innermost of what is below the scheme
      cases inner with
      | nil =>
        obtain ⟨rfl, _⟩ := List.cons.inj hsplit
        rw [hscheme] at hconcept
        cases hconcept
      | cons q rest =>
        obtain ⟨rfl, rfl⟩ := List.cons.inj hsplit
        exact ⟨rest, s, hshows.map_withIri? hsound.indexed hapart, hscheme,
          (hbelow _ List.mem_cons_self).2, fun q hq => hbelow q (List.mem_cons_of_mem _ hq)⟩

theorem schemes_kept_smallScheme : Reachable smallScheme ∧ smallScheme.PrintsApart ∧
    smallScheme.configuration.conceptSchemes = true ∧
    ∃ built, build smallScheme = .ok built ∧ built.forest.KeepsSchemes smallScheme :=
  ⟨smallScheme_reachable, smallScheme_printsApart, rfl,
    schemes_kept smallScheme smallScheme_reachable smallScheme_printsApart rfl⟩

end Thesaurus
