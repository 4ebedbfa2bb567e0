import Thesaurus.Proofs.Forest.Sight
import Thesaurus.Proofs.Graph.Ignored
import Thesaurus.Proofs.Transform

/-!
# No trace of ignored statements

- `ResourceGraph.skipped_seesAlike`: a traversal does not see what was ignored.
- `ignored_invisible`: a stream leads to the same graph, statistics and outcome if the statements
  that are ignored are removed from it.
-/

namespace Thesaurus

open Rdf (Triple)

/-- A traversal does not read counters. -/
theorem ResourceGraph.skipped_seesAlike (g : ResourceGraph) (k : Nat) : SeesAlike g (g.skipped k) :=
  ⟨rfl, rfl, rfl⟩

/-- Ignored statements are invisible. Whether a statement raises the counter of ignored ones depends
on the statement and the configuration of the graph only, whatever was taken in before, and then
nothing but this counter and that of all statements changes. If all such statements are removed
from a stream, the same graph, with the same ids, the same issues and the same statistics comes of
it, but for these two counters, and a transform has the same outcome. -/
theorem ignored_invisible (c : Configuration) (triples : List Triple) :
    (∀ (g g' : ResourceGraph) (t : Triple), g.ingest t = .ok g' →
      g'.counters.ignored =
        g.counters.ignored + (ResourceGraph.ignores g.configuration t).toNat ∧
      (ResourceGraph.ignores g.configuration t = true → g' = g.skipped 1)) ∧
    (∃ g g' f f',
      (ResourceGraph.new c).ingestAll triples = .ok g ∧
      (ResourceGraph.new c).ingestAll ((ResourceGraph.new c).heeded triples) = .ok g' ∧
      g = g'.skipped g.counters.ignored ∧
      g.finish = .ok f ∧ g'.finish = .ok f' ∧ f = f'.skipped g.counters.ignored ∧
      f.checkedStats = f'.checkedStats) ∧
    transform c triples = transform c ((ResourceGraph.new c).heeded triples) := by
  obtain ⟨g', htaken', hsound, _, hopen, _⟩ :=
    ResourceGraph.exists_ingestAll ((ResourceGraph.new c).heeded triples) (Sound.new c) rfl
  obtain ⟨g, htaken, hsame⟩ : ∃ g, (ResourceGraph.new c).ingestAll triples = .ok g ∧
      g = g'.skipped g.counters.ignored := by
    have htaken : (ResourceGraph.new c).ingestAll triples = _ := ResourceGraph.ingestAll_heeded rfl
    rw [htaken'] at htaken
    -- the counter starts at none, so that its end tells how much was skipped
    have htally := (ResourceGraph.ignored_of_ingestAll htaken).trans (Nat.zero_add _)
    exact ⟨_, htaken, congrArg (ResourceGraph.skipped · g') htally.symm⟩
  have hfinished := ResourceGraph.finish_eq hopen
  have hsameFinished : g.completed = g'.completed.skipped g.counters.ignored := by
    conv_lhs => rw [hsame]
    exact ResourceGraph.completed_skipped
  have hopenToo : g.frozen = false := by
    rw [hsame]
    exact hopen
  have hfinishedToo := ResourceGraph.finish_eq hopenToo
  refine ⟨fun g g' t => ResourceGraph.ignored_of_ingest,
    ⟨g, g', _, _, htaken, htaken', hsame, hfinishedToo, hfinished, hsameFinished, ?_⟩, ?_⟩
  · rw [ResourceGraph.checkedStats_eq, ResourceGraph.checkedStats_eq, hsameFinished]
    exact congrArg Except.ok ResourceGraph.stats_skipped
  · cases hvalid : c.validate with
    | error e => simp only [transform, Session.start, hvalid]
    | ok =>
      obtain ⟨built, hgrown, _⟩ := Traversal.exists_build (ResourceGraph.sound_completed hsound)
      have hgrownToo : Traversal.build g.completed = .ok built := by
        rw [hsameFinished]
        exact (ResourceGraph.skipped_seesAlike g'.completed _).build.trans hgrown
      rw [transform_eq hvalid htaken hopenToo hfinishedToo hgrownToo,
        transform_eq hvalid htaken' hopen hfinished hgrown, hsameFinished]
      rfl

/-- Statements that are ignored for all four reasons, and two that are not. -/
def mostlyIgnored : List Triple := [
  ⟨.iri "urn:a", "urn:unheard", .node (.iri "urn:b")⟩,
  ⟨.iri "urn:b", "http://www.w3.org/2004/02/skos/core#broader", .node (.iri "urn:a")⟩,
  ⟨.iri "urn:c", "http://www.w3.org/2004/02/skos/core#prefLabel", .node (.iri "urn:a")⟩,
  ⟨.iri "urn:a", "http://www.w3.org/2004/02/skos/core#inScheme", .node (.iri "urn:s")⟩,
  ⟨.iri "urn:d", "http://www.w3.org/1999/02/22-rdf-syntax-ns#type", .node (.blank "k")⟩,
  ⟨.iri "urn:c", "http://www.w3.org/2004/02/skos/core#narrower", .node (.iri "urn:b")⟩]

theorem ignored_invisible_mostly :
    (∃ g', (ResourceGraph.new {}).ingest mostlyIgnored[0] = .ok g' ∧
      g'.counters.ignored = 1 ∧ g' = (ResourceGraph.new {}).skipped 1) ∧
    (ResourceGraph.new {}).heeded mostlyIgnored = [mostlyIgnored[1], mostlyIgnored[5]] ∧
    transform {} mostlyIgnored = transform {} [mostlyIgnored[1], mostlyIgnored[5]] := by
  have hheeded : (ResourceGraph.new {}).heeded mostlyIgnored =
      [mostlyIgnored[1], mostlyIgnored[5]] := by decide +kernel
  have hinvisible := ignored_invisible {} mostlyIgnored
  rw [hheeded] at hinvisible
  have hfirst : (ResourceGraph.new {}).ingest mostlyIgnored[0] =
      .ok ((ResourceGraph.new {}).skipped 1) := by decide +kernel
  obtain ⟨hraised, hskipped⟩ := hinvisible.1 _ _ _ hfirst
  exact ⟨⟨_, hfirst, hraised, hskipped (by decide +kernel)⟩, hheeded, hinvisible.2.2⟩

end Thesaurus
