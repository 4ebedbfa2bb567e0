import Thesaurus.Proofs.Forest.Sight
import Thesaurus.Proofs.Graph.Inverses
import Thesaurus.Proofs.Graph.Repeats
import Thesaurus.Proofs.Transform

/-!
# One forest for inverse relations

Statements may relate two nodes by a relation or, with the nodes exchanged, by its inverse. A
transform leads to the same forest and the same flags, and to issues that differ in the name of a
relation at most.

- `Outcome.Rewords`: whether two outcomes differ in the words of issues only.
- `inverses_interchangeable`: restated statements lead to such graphs and outcomes.
-/

namespace Thesaurus

open Rdf (Triple)

/-- A traversal does not read issues. -/
theorem ResourceGraph.Rewords.seesAlike {g g' : ResourceGraph} (h : g.Rewords g') :
    SeesAlike g g' where
  resources := h.resources
  schemes := congrArg (·.conceptSchemes) h.configuration
  collections := congrArg (·.collections) h.configuration

/-- Whether two outcomes differ in the words of issues only. -/
structure Outcome.Rewords (o o' : Outcome) : Prop where
  same : o' = { o with issues := o'.issues }
  issues : List.Forall₂ Issue.Reworded o.issues o'.issues

/-- Inverse relations are interchangeable. Statements, and the same statements some of which are
restated by inverse relations, lead to the same graph before and after it is finished, and to the
same forest and flags; what is shown of the issues differs in the name of a relation at most. -/
theorem inverses_interchangeable (c : Configuration) (triples triples' : List Triple)
    (hvalid : c.validate = .ok ()) (hrestated : List.Forall₂ Restated triples triples') :
    ∃ g g' f f' o o',
      (ResourceGraph.new c).ingestAll triples = .ok g ∧
      (ResourceGraph.new c).ingestAll triples' = .ok g' ∧ g.Rewords g' ∧
      g.finish = .ok f ∧ g'.finish = .ok f' ∧ f.Rewords f' ∧
      transform c triples = .ok o ∧ transform c triples' = .ok o' ∧ o.Rewords o' ∧
      List.Forall₂ Diagnostic.Reworded g.diagnostics g'.diagnostics ∧
      List.Forall₂ Diagnostic.Reworded f.diagnostics f'.diagnostics ∧
      List.Forall₂ Diagnostic.Reworded (o.issues.map (·.diagnostic))
        (o'.issues.map (·.diagnostic)) := by
  obtain ⟨g, htaken, hsound, _, hopen, _⟩ :=
    ResourceGraph.exists_ingestAll triples (Sound.new c) rfl
  obtain ⟨g', htaken', hreworded⟩ := (ResourceGraph.Rewords.refl _).ingestAll hrestated htaken
  have hopen' : g'.frozen = false := hreworded.frozen.trans hopen
  have hfinished := ResourceGraph.finish_eq hopen
  have hfinished' := ResourceGraph.finish_eq hopen'
  have hfinishedReworded := hreworded.completed
  obtain ⟨built, hgrown, _⟩ := Traversal.exists_build (ResourceGraph.sound_completed hsound)
  have hgrown' : Traversal.build g'.completed = .ok built :=
    hfinishedReworded.seesAlike.build.trans hgrown
  have hissues := reworded_append hfinishedReworded.issues built.issues
  refine ⟨g, g', _, _, _, _, htaken, htaken', hreworded, hfinished, hfinished', hfinishedReworded,
    transform_eq hvalid htaken hopen hfinished hgrown,
    transform_eq hvalid htaken' hopen' hfinished' hgrown', ⟨?_, hissues⟩,
    diagnostics_of_reworded hreworded.issues, diagnostics_of_reworded hfinishedReworded.issues,
    diagnostics_of_reworded hissues⟩
  rw [hfinishedReworded.configuration]

/-- The same statements as `partlyRefused`, of which the scheme makes all. -/
def partlyRefusedInverse : List Triple := [
  ⟨.iri "urn:s", "http://www.w3.org/1999/02/22-rdf-syntax-ns#type",
    .node (.iri "http://www.w3.org/2004/02/skos/core#ConceptScheme")⟩,
  ⟨.iri "urn:s", "http://www.w3.org/2004/02/skos/core#narrower", .node (.iri "urn:a")⟩,
  ⟨.iri "urn:s", "http://www.w3.org/2004/02/skos/core#hasTopConcept", .node (.iri "urn:a")⟩]

theorem restated_partlyRefused : List.Forall₂ Restated partlyRefused partlyRefusedInverse :=
  .cons (.same _) (.cons (.inverse .broader rfl rfl) (.cons (.inverse .topConceptOf rfl rfl) .nil))

theorem inverses_interchangeable_partlyRefused :
    Configuration.validate { conceptSchemes := true } = .ok () ∧
    List.Forall₂ Restated partlyRefused partlyRefusedInverse ∧
    ∃ g g' f f' o o',
      (ResourceGraph.new { conceptSchemes := true }).ingestAll partlyRefused = .ok g ∧
      (ResourceGraph.new { conceptSchemes := true }).ingestAll partlyRefusedInverse = .ok g' ∧
      g.Rewords g' ∧ g.finish = .ok f ∧ g'.finish = .ok f' ∧ f.Rewords f' ∧
      transform { conceptSchemes := true } partlyRefused = .ok o ∧
      transform { conceptSchemes := true } partlyRefusedInverse = .ok o' ∧ o.Rewords o' ∧
      List.Forall₂ Diagnostic.Reworded g.diagnostics g'.diagnostics ∧
      List.Forall₂ Diagnostic.Reworded f.diagnostics f'.diagnostics ∧
      List.Forall₂ Diagnostic.Reworded (o.issues.map (·.diagnostic))
        (o'.issues.map (·.diagnostic)) :=
  ⟨rfl, restated_partlyRefused,
    inverses_interchangeable { conceptSchemes := true } partlyRefused partlyRefusedInverse rfl
      restated_partlyRefused⟩

/-- The scheme is refused as a concept in both, for relations of different names. -/
example :
    ((ResourceGraph.new { conceptSchemes := true }).ingestAll partlyRefused).map (·.issues) =
        .ok [.typeConflict (.iri "urn:s") .conceptScheme .concept .broader] ∧
      ((ResourceGraph.new { conceptSchemes := true }).ingestAll partlyRefusedInverse).map
          (·.issues) =
        .ok [.typeConflict (.iri "urn:s") .conceptScheme .concept .narrower] := by
  decide +kernel

end Thesaurus
