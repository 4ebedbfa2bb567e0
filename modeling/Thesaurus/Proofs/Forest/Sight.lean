import Thesaurus.Proofs.Forest.Promotion
import Thesaurus.Proofs.Forest.Recursion

/-!
# What a traversal sees of a graph

A traversal looks at the resources of a graph and at whether schemes and collections are shown. From
graphs that are alike in this it builds the same forest, whatever else they hold.

- `SeesAlike`: whether a traversal cannot tell two graphs apart.
- `SeesAlike.turn`, `SeesAlike.run`: the same turns lead to the same tree.
- `SeesAlike.build`: the same forest is built.
-/

namespace Thesaurus

/-- Whether a traversal cannot tell two graphs apart: they have the same resources, and show schemes
and collections alike. -/
structure SeesAlike (g g' : ResourceGraph) : Prop where
  resources : g'.resources = g.resources
  schemes : g'.configuration.conceptSchemes = g.configuration.conceptSchemes
  collections : g'.configuration.collections = g.configuration.collections

namespace SeesAlike

open Traversal

variable {g g' : ResourceGraph} {r : Resource} {id : ResourceId} {c : Context}
  {contexts : OpenContexts} {edges : List Edge} {e : Edge} {s : Stage} {p : Progress}
  {rootIri : String}

/-! ## Resources and contexts -/

theorem resource (h : SeesAlike g g') : g'.resource id = g.resource id := by
  unfold ResourceGraph.resource ResourceGraph.size
  rw [h.resources]

theorem kindOf (h : SeesAlike g g') : g'.kindOf = g.kindOf :=
  ResourceGraph.kindOf_congr h.resources

theorem linksOf (h : SeesAlike g g') : g'.linksOf = g.linksOf :=
  ResourceGraph.linksOf_congr h.resources

theorem requireAll (h : SeesAlike g g') (ids : List ResourceId) :
    g'.requireAll ids = g.requireAll ids := by
  induction ids with
  | nil => rfl
  | cons id rest ih => rw [ResourceGraph.requireAll, ResourceGraph.requireAll, h.resource, ih]

theorem context (h : SeesAlike g g') : Context.of g' r = Context.of g r := by
  simp only [Context.of, Context.conceptsAmong, h.requireAll, h.kindOf]

theorem hasBroader (h : SeesAlike g g') : c.hasBroader g' id = c.hasBroader g id := by
  rw [Context.hasBroader, Context.hasBroader, h.linksOf]

theorem contextRoots (h : SeesAlike g g') : c.roots g' = c.roots g := by
  simp only [Context.roots, h.hasBroader]

/-! ## Turns -/

theorem schedule (h : SeesAlike g g') :
    schedule g' contexts edges = schedule g contexts edges := by
  have hkeys : edgeKey g' contexts = edgeKey g contexts := by
    funext e
    rw [edgeKey, edgeKey, h.resources]
  rw [Traversal.schedule, Traversal.schedule, h.requireAll, hkeys]

theorem masterEdges (h : SeesAlike g g') : masterEdges g' r = masterEdges g r := by
  simp only [Traversal.masterEdges, h.requireAll, h.schemes, h.linksOf]

theorem contextEdges (h : SeesAlike g g') : contextEdges g' r c = contextEdges g r c := by
  have hmembers : memberEdge? g' c = memberEdge? g c := by
    funext id
    rw [memberEdge?, memberEdge?, h.kindOf, h.hasBroader]
  simp only [Traversal.contextEdges, collectionEdges, h.contextRoots, h.requireAll, hmembers]

theorem plan (h : SeesAlike g g') : plan g' contexts e r = plan g contexts e r := by
  simp only [Traversal.plan, conceptPlan, contextPlan, h.masterEdges, h.context, h.contextEdges]

theorem place (h : SeesAlike g g') : place g' contexts e = place g contexts e := by
  simp only [Traversal.place, h.resource, h.plan, h.schedule]

theorem turn (h : SeesAlike g g') : turn g' rootIri s = turn g rootIri s := by
  simp only [Traversal.turn, follow, reference, h.place, h.resource]

/-! ## Trees -/

/-- The same turns lead to the same tree. -/
theorem run (h : SeesAlike g g') : run g' rootIri s = run g rootIri s := by
  fun_induction Traversal.run g rootIri s with
  | case1 s d hfailed => rw [run_eq, h.turn, hfailed]
  | case2 s tree p hfinished => rw [run_eq, h.turn, hfinished]
  | case3 s later hstep ih => rw [run_eq, h.turn, hstep, ← ih]

theorem grow (h : SeesAlike g g') : grow g' e p = grow g e p := by
  simp only [Traversal.grow, h.place, h.run]

theorem growEach (h : SeesAlike g g') (ids : List ResourceId) :
    growEach g' ids p = growEach g ids p := by
  induction ids generalizing p with
  | nil => rfl
  | cons id rest ih => simp only [Traversal.growEach, h.grow, ih]

/-- What is left is promoted in the same rounds. -/
theorem promote (h : SeesAlike g g') : promote g' p = promote g p := by
  fun_induction Traversal.promote g p with
  | case1 p hnone => rw [promote_of_nothing hnone]
  | case2 p id rest hfirst d hfailed =>
    rw [promote_eq, hfirst]
    dsimp only
    rw [h.grow, hfailed]
  | case3 p id rest hfirst tree later hgrown d hfailed ih =>
    rw [promote_eq, hfirst]
    dsimp only
    rw [h.grow, hgrown]
    dsimp only
    rw [ih, hfailed]
  | case4 p id rest hfirst tree later hgrown trees last hpromoted ih =>
    rw [hpromoted] at ih
    exact promote_of_first hfirst (h.grow.trans hgrown) ih

/-! ## The forest -/

theorem anyOutsideSchemes (h : SeesAlike g g') (ids : List ResourceId) :
    anyOutsideSchemes g' ids = anyOutsideSchemes g ids := by
  induction ids with
  | nil => rfl
  | cons id rest ih =>
    rw [Traversal.anyOutsideSchemes, Traversal.anyOutsideSchemes, h.resource, ih]

theorem conceptRoots (h : SeesAlike g g') (resources : List Resource) :
    conceptRoots g' resources = conceptRoots g resources := by
  have hisRoot : ∀ r, isConceptRoot g' r = isConceptRoot g r := fun r => by
    simp only [isConceptRoot, h.schemes, h.collections, h.anyOutsideSchemes]
  induction resources with
  | nil => rfl
  | cons r rest ih => rw [Traversal.conceptRoots, Traversal.conceptRoots, hisRoot, ih]

theorem roots (h : SeesAlike g g') : roots g' = roots g := by
  simp only [Traversal.roots, h.resources, h.conceptRoots, h.schemes, h.collections]

/-- From graphs that a traversal cannot tell apart the same forest is built. -/
theorem build (h : SeesAlike g g') : build g' = build g := by
  have htyped : typedIds g' = typedIds g := by
    simp only [typedIds, ResourceGraph.size, h.resources, h.kindOf]
  simp only [Traversal.build, h.roots, htyped, h.growEach, h.promote]

end SeesAlike

end Thesaurus
