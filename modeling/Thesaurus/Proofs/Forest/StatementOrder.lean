import Thesaurus.Proofs.Forest.Distinct
import Thesaurus.Proofs.Forest.Leftovers
import Thesaurus.Proofs.Graph.Counterparts
import Thesaurus.Proofs.Transform

/-!
# The order of statements

A graph gives out ids in the order in which nodes are mentioned. Other orders of the same statements
lead to a graph that is renamed, and its forest is the same, unless the choice of what is taken up
next among resources that are left over makes a difference.

- `ResourceGraph.transform_of_ingestAll`: a transform in terms of the graph that statements lead to.
- `forest_unordered`: transforms of the same statements have the same forest where that choice makes
  no difference, which is so where no concept belongs to two contexts and there are no cycles.
- `order_shows`: the choice makes a difference for a concept that two schemes share.
-/

namespace Thesaurus

open Rdf (Triple)

/-- The forest that a transform leads to is that of the finished graph, sorted by notation. -/
theorem ResourceGraph.transform_of_ingestAll {c : Configuration} {triples : List Triple}
    {g : ResourceGraph} (hvalid : c.validate = .ok ())
    (htaken : (new c).ingestAll triples = .ok g) :
    ∃ built outcome, Traversal.build g.completed = .ok built ∧
      transform c triples = .ok outcome ∧
      (outcome.forest, outcome.notationFault) = sortedForest c.notationSort built.forest := by
  obtain ⟨hconfiguration, hopen⟩ := ingestAll_keeps htaken
  have hsound := ((Reachable.new c).ingestAll htaken).sound
  obtain ⟨built, hgrown, _⟩ := Traversal.exists_build (sound_completed hsound)
  refine ⟨built, _, hgrown, transform_eq hvalid htaken hopen (finish_eq hopen) hgrown, ?_⟩
  rw [configuration_completed, hconfiguration]

/-- Streams with the same statements, in which texts have the same order, are transformed into the
same forest, if one records no conflict, no two nodes print alike and it does not matter which of
the resources that are left over is taken up first. This never matters where no concept belongs to
two contexts and there are no cycles, as long as schemes are shown or collections are not. -/
theorem forest_unordered (c : Configuration) (triples others : List Triple)
    (hvalid : c.validate = .ok ()) (hsame : ∀ t, t ∈ others ↔ t ∈ triples)
    (htexts : others.filter givesText = triples.filter givesText) :
    ∃ g f outcome outcome', (ResourceGraph.new c).ingestAll triples = .ok g ∧ g.finish = .ok f ∧
      transform c triples = .ok outcome ∧ transform c others = .ok outcome' ∧
      (¬ g.Conflicted → f.PrintsApart → f.Unambiguous →
        outcome'.forest = outcome.forest ∧ outcome'.notationFault = outcome.notationFault) ∧
      (f.Acyclic → f.ContextsApart → (c.conceptSchemes = true ∨ c.collections = false) →
        f.Unambiguous) := by
  obtain ⟨g, htaken, hsound, hconfiguration, hopen, _⟩ :=
    ResourceGraph.exists_ingestAll triples (Sound.new c) rfl
  obtain ⟨g', htaken', hsound', _⟩ := ResourceGraph.exists_ingestAll others (Sound.new c) rfl
  have hfinished := ResourceGraph.finish_eq hopen
  have horders := (((Reachable.new c).ingestAll htaken).finish hfinished).ordersExact
  obtain ⟨built, outcome, hgrown, htransformed, hsorted⟩ :=
    ResourceGraph.transform_of_ingestAll hvalid htaken
  obtain ⟨built', outcome', hgrown', htransformed', hsorted'⟩ :=
    ResourceGraph.transform_of_ingestAll hvalid htaken'
  refine ⟨g, g.completed, outcome, outcome', htaken, hfinished, htransformed, htransformed',
    fun hquiet hapart hfree => ?_, fun hacyclic hcontexts hmode => ?_⟩
  · -- the finished graphs differ in their ids only, and these cannot be told from the forest
    obtain ⟨σ, hrenames⟩ := ResourceGraph.exists_renames hsame htexts htaken htaken' hquiet
    have hsame' := Traversal.build_agree hrenames (ResourceGraph.sound_completed hsound)
      (ResourceGraph.sound_completed hsound') horders hapart hfree hgrown hgrown'
    rw [hsame', ← hsorted] at hsorted'
    exact Prod.ext_iff.1 hsorted'
  · refine unambiguous_of_acyclic (ResourceGraph.sound_completed hsound) horders hacyclic
      hcontexts ?_
    rw [ResourceGraph.configuration_completed, hconfiguration]
    exact hmode

/-- The small scheme when it is finished, which says that its top concept has a broader one. -/
def finishedScheme : ResourceGraph :=
  { smallScheme with
    issues := [.topConceptHasBroader (.iri "urn:b") (.iri "urn:s") (.iri "urn:a")]
    frozen := true }

/-- There is only one context. -/
theorem finishedScheme_contextsApart : finishedScheme.ContextsApart := by
  have honly : ∀ r ∈ smallScheme.resources.toList, r.kind.gathers = true → r.id = 0 := by decide
  intro k l hk hl hgathers hgathers' _ _ _
  have hkid := honly k (Array.mem_toList_iff.2 (Array.mem_of_getElem? hk)) hgathers
  have hlid := honly l (Array.mem_toList_iff.2 (Array.mem_of_getElem? hl)) hgathers'
  exact hk.eq hl (hkid.trans hlid.symm)

theorem forest_unordered_smallScheme :
    Configuration.validate { conceptSchemes := true } = .ok () ∧
      (∀ t, t ∈ smallStatements.reverse ↔ t ∈ smallStatements) ∧
      smallStatements.reverse.filter givesText = smallStatements.filter givesText ∧
      ∃ g f outcome outcome',
        (ResourceGraph.new { conceptSchemes := true }).ingestAll smallStatements = .ok g ∧
        g.finish = .ok f ∧ ¬ g.Conflicted ∧ f.PrintsApart ∧ f.Acyclic ∧ f.ContextsApart ∧
        transform { conceptSchemes := true } smallStatements = .ok outcome ∧
        transform { conceptSchemes := true } smallStatements.reverse = .ok outcome' ∧
        outcome'.forest = outcome.forest := by
  have hsame : ∀ t, t ∈ smallStatements.reverse ↔ t ∈ smallStatements := fun _ => List.mem_reverse
  have htexts : smallStatements.reverse.filter givesText = smallStatements.filter givesText := rfl
  obtain ⟨g, f, outcome, outcome', htaken, hfinished, htransformed, htransformed', hagree, hfree⟩ :=
    forest_unordered { conceptSchemes := true } smallStatements smallStatements.reverse rfl hsame
      htexts
  have hknown : (ResourceGraph.new { conceptSchemes := true }).ingestAll smallStatements =
      .ok smallScheme := by decide +kernel
  obtain rfl : smallScheme = g := Except.ok.inj (hknown.symm.trans htaken)
  have hwhole : smallScheme.finish = .ok finishedScheme := by decide +kernel
  obtain rfl : finishedScheme = f := Except.ok.inj (hwhole.symm.trans hfinished)
  have hquiet : ¬ smallScheme.Conflicted := fun ⟨i, hmem, _⟩ => by cases hmem
  have hacyclic : finishedScheme.Acyclic := smallScheme_acyclic
  have hapart : finishedScheme.PrintsApart := smallScheme_printsApart
  exact ⟨rfl, hsame, htexts, _, _, outcome, outcome', htaken, hfinished, hquiet, hapart, hacyclic,
    finishedScheme_contextsApart, htransformed, htransformed',
    (hagree hquiet hapart (hfree hacyclic finishedScheme_contextsApart (.inl rfl))).1⟩

/-! ## A concept that two schemes share -/

/-- Statements about two schemes with a concept in common. It leads to the other concepts, and these
are stated to be in the second scheme in the given order. -/
def sharedStatements (order : List String) : List Triple := [
  ⟨.iri "urn:a", "http://www.w3.org/2004/02/skos/core#inScheme", .node (.iri "urn:r")⟩,
  ⟨.iri "urn:a", "http://www.w3.org/2004/02/skos/core#inScheme", .node (.iri "urn:s")⟩] ++
  order.map (fun iri =>
    ⟨.iri iri, "http://www.w3.org/2004/02/skos/core#inScheme", .node (.iri "urn:s")⟩) ++ [
  ⟨.iri "urn:a", "http://www.w3.org/2004/02/skos/core#narrower", .node (.iri "urn:b")⟩,
  ⟨.iri "urn:b", "http://www.w3.org/2004/02/skos/core#narrower", .node (.iri "urn:c")⟩]

/-- The graph of these statements, in which the other concepts have the given ids. -/
def sharedConcept (b c : ResourceId) : ResourceGraph where
  configuration := { conceptSchemes := true }
  resources :=
    let upper : Resource :=
      { id := b, node := .iri "urn:b", kind := .concept,
        links := { broader := .ofList [1], narrower := .ofList [c], inSchemes := .ofList [2] } }
    let lower : Resource :=
      { id := c, node := .iri "urn:c", kind := .concept,
        links := { broader := .ofList [b], inSchemes := .ofList [2] } }
    #[{ id := 0, node := .iri "urn:r", kind := .conceptScheme,
        links := { schemeMembers := .ofList [1] } },
      { id := 1, node := .iri "urn:a", kind := .concept,
        links := { narrower := .ofList [b], inSchemes := .ofList [0, 2] } },
      { id := 2, node := .iri "urn:s", kind := .conceptScheme,
        links := { schemeMembers := .ofList [1, b, c] } }] ++
      if b < c then #[upper, lower] else #[lower, upper]
  index := ⟨[(.iri "urn:r", 0), (.iri "urn:a", 1), (.iri "urn:s", 2)] ++
    if b < c then [(.iri "urn:b", b), (.iri "urn:c", c)] else
      [(.iri "urn:c", c), (.iri "urn:b", b)]⟩
  counters := { triples := 6 }

/-- A scheme that is shown without any text. -/
def schemeTree (iri : String) (children : Forest) : Tree Entry :=
  .node { view := { iri := iri, kind := .conceptScheme } } children

/-- A reference to a concept that is shown without any text. -/
def plainReference (iri : String) : Tree Entry :=
  .node { view := { iri := iri, kind := .concept }, reference := true } []

/-- The shared concept is owned in the first scheme, where it leads nowhere. In the second scheme it
is referred to, and the concepts below it are left over: the one that was mentioned first is taken
up first, and is only above the other one if this one is left. -/
theorem order_shows :
    Configuration.validate { conceptSchemes := true } = .ok () ∧
      (sharedStatements ["urn:c", "urn:b"]).Perm (sharedStatements ["urn:b", "urn:c"]) ∧
      (sharedStatements ["urn:c", "urn:b"]).filter givesText =
        (sharedStatements ["urn:b", "urn:c"]).filter givesText ∧
      ∃ g f, (ResourceGraph.new { conceptSchemes := true }).ingestAll
          (sharedStatements ["urn:b", "urn:c"]) = .ok g ∧ ¬ g.Conflicted ∧
        g.finish = .ok f ∧ f.PrintsApart ∧ f.Acyclic ∧
      ∃ outcome outcome',
        transform { conceptSchemes := true } (sharedStatements ["urn:b", "urn:c"]) = .ok outcome ∧
        transform { conceptSchemes := true } (sharedStatements ["urn:c", "urn:b"]) = .ok outcome' ∧
        outcome'.forest ≠ outcome.forest := by
  have htaken : (ResourceGraph.new { conceptSchemes := true }).ingestAll
      (sharedStatements ["urn:b", "urn:c"]) = .ok (sharedConcept 3 4) := by decide +kernel
  have htaken' : (ResourceGraph.new { conceptSchemes := true }).ingestAll
      (sharedStatements ["urn:c", "urn:b"]) = .ok (sharedConcept 4 3) := by decide +kernel
  have hfinished : (sharedConcept 3 4).finish = .ok { sharedConcept 3 4 with frozen := true } := by
    decide +kernel
  have hfinished' : (sharedConcept 4 3).finish = .ok { sharedConcept 4 3 with frozen := true } := by
    decide +kernel
  have hgrown : Traversal.build { sharedConcept 3 4 with frozen := true } = .ok {
      forest := [schemeTree "urn:r" [plainTree "urn:a" []],
        schemeTree "urn:s" [plainReference "urn:a", plainTree "urn:b" [plainTree "urn:c" []]]]
      cycle := false
      onlyTreeEdges := false
      issues := [] } := by cbv
  have hgrown' : Traversal.build { sharedConcept 4 3 with frozen := true } = .ok {
      forest := [schemeTree "urn:r" [plainTree "urn:a" []],
        schemeTree "urn:s" [plainReference "urn:a",
          plainTree "urn:b" [plainReference "urn:c"], plainTree "urn:c" []]]
      cycle := false
      onlyTreeEdges := false
      issues := [] } := by cbv
  -- the forests differ, though neither conflicts, nor texts, nor cycles are to blame
  have hquiet : ¬ (sharedConcept 3 4).Conflicted := by
    rintro ⟨i, hmem, _⟩
    cases hmem
  have hapart : ({ sharedConcept 3 4 with frozen := true } : ResourceGraph).PrintsApart := by
    show PrintApart _
    decide
  have hsound := (((Reachable.new _).ingestAll htaken).finish hfinished).sound
  exact ⟨rfl, by decide +kernel, rfl, _, _, htaken, hquiet, hfinished, hapart,
    ResourceGraph.acyclic_of_no_members hsound (by decide +kernel) (by decide), _, _,
    transform_eq rfl htaken rfl hfinished hgrown, transform_eq rfl htaken' rfl hfinished' hgrown',
    by decide⟩

end Thesaurus
