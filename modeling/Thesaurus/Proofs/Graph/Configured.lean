import Thesaurus.Proofs.Graph.Overlooked

/-!
# One graph under another configuration

A graph looks at its configuration in few places: for the form of URLs, the preferred language, the
relations and classes that are considered, and whether resources of unknown kind are left out. Under
a configuration that has the same answers in these places the same becomes of it.

- `ResourceGraph.configured`: the graph under another configuration.
- `ResourceGraph.ingestAll_configured`: statements about which both have the same answers are taken
  in alike.
- `ResourceGraph.completed_configured`: the graph is finished alike.
-/

namespace Thesaurus

open Rdf (Triple)

namespace ResourceGraph

/-- The graph under another configuration. -/
def configured (g : ResourceGraph) (c : Configuration) : ResourceGraph :=
  { g with configuration := c }

variable {g : ResourceGraph} {c : Configuration}

@[simp] theorem configuration_configured : (g.configured c).configuration = c :=
  rfl

/-! ## Statements -/

/-- What a graph is asked to do is overlooked. -/
theorem overlooked_configured (c₀ c : Configuration) : Overlooked c₀ c (·.configured c) where
  configuration := fun _ => rfl
  resources := fun _ => rfl
  index := fun _ => rfl
  frozen := fun _ => rfl
  withResources := fun _ _ _ => rfl
  report := fun _ _ => rfl
  linkCell := fun _ _ _ _ => rfl
  ignore := fun _ => rfl
  counted := fun _ => rfl

/-- Statements about which two configurations have the same answers are taken in alike. -/
theorem ingestAll_configured {triples : List Triple}
    (halike : ∀ t ∈ triples, TakesAlike c g.configuration t) :
    (g.configured c).ingestAll triples = (g.ingestAll triples).map (·.configured c) :=
  (overlooked_configured g.configuration c).ingestAll rfl halike

/-- Taking in statements does not configure a graph. -/
theorem configuration_of_ingestAll {g' : ResourceGraph} {triples : List Triple}
    (htaken : g.ingestAll triples = .ok g') : g'.configuration = g.configuration := by
  induction triples generalizing g with
  | nil =>
    cases htaken
    rfl
  | cons t rest ih =>
    obtain ⟨g₁, hfirst, hothers⟩ := of_ingestAll_cons htaken
    rw [ih hothers, configuration_accept (of_ingest hfirst).2]

/-! ## Finishing -/

theorem freeze_configured (hfilters : c.filtersByType = g.configuration.filtersByType) :
    (g.configured c).freeze = g.freeze.configured c := by
  have hprune : (g.configured c).prune = g.prune.configured c :=
    prune_replaced (·.configured c) rfl fun _ _ _ => rfl
  rw [freeze_eq, freeze_eq, configuration_configured, hfilters, hprune]
  split <;> rfl

/-- Where unknown kinds are left out alike, a graph is finished alike. -/
theorem completed_configured (hfilters : c.filtersByType = g.configuration.filtersByType) :
    (g.configured c).completed = g.completed.configured c := by
  have hfrozen : (g.readMemberLists.dropSchemesFromCollections.configured c).freeze =
      g.readMemberLists.dropSchemesFromCollections.freeze.configured c :=
    freeze_configured hfilters
  exact congrArg checkTopConcepts hfrozen

end ResourceGraph

end Thesaurus
