import Thesaurus.Proofs.Forest.Sight
import Thesaurus.Proofs.Graph.Configured
import Thesaurus.Proofs.Transform

/-!
# One forest under another configuration

A traversal looks at nothing of the configuration but whether schemes and collections are shown.
How siblings are to be sorted by notation matters only when the forest is complete.

- `Traversal.build_configured`: where the same is shown, the same forest is built.
- `transform_sorting`: however siblings are to be sorted, the same forest is sorted.
- `notation_conservative`: configurations that differ in notation only lead to the same trees.
-/

namespace Thesaurus

variable {g : ResourceGraph} {c : Configuration}

/-- Where the same is shown, the same forest is built. -/
theorem Traversal.build_configured (hschemes : c.conceptSchemes = g.configuration.conceptSchemes)
    (hcollections : c.collections = g.configuration.collections) :
    build (g.configured c) = build g :=
  SeesAlike.build ⟨rfl, hschemes, hcollections⟩

/-! ## Transforms -/

/-- The configuration that has siblings sorted by notation in a given way, or not at all. -/
def Configuration.sorting (c : Configuration) (s : Option Notation.Sorting) : Configuration :=
  { c with notationSort := s }

/-- About no statement does it matter how siblings are to be sorted. -/
theorem takesAlike_sorting (s : Option Notation.Sorting) (t : Rdf.Triple) :
    TakesAlike (c.sorting s) c t :=
  ⟨rfl, rfl, fun _ _ => rfl, fun _ _ _ => rfl⟩

/-- A forest that could not be sorted is the one before. -/
theorem sortedForest_of_fault {s : Option Notation.Sorting} {f : Forest}
    (h : (sortedForest s f).2.isSome = true) : (sortedForest s f).1 = f := by
  unfold sortedForest at h ⊢
  split at h
  · rfl
  · next sorting =>
    obtain ⟨_, happlied⟩ | ⟨_, fault, happlied⟩ := Ranking.apply_cases sorting f
    · rw [happlied] at h
      cases h
    · rw [happlied]

/-- However siblings are to be sorted, the same forest is built, and nothing but this forest is
sorted. -/
theorem transform_sorting (triples : List Rdf.Triple) (hvalid : c.validate = .ok ()) :
    ∃ (built : Traversal.Built) (issues : List Issue), ∀ s : Option Notation.Sorting,
      transform (c.sorting s) triples = .ok
        { forest := (sortedForest s built.forest).1
          cycle := built.cycle
          onlyTreeEdges := built.onlyTreeEdges
          issues := issues
          notationFault := (sortedForest s built.forest).2 } := by
  obtain ⟨g, htaken, hsound, hconfiguration, hopen, _⟩ :=
    ResourceGraph.exists_ingestAll triples (Sound.new c) rfl
  have hsame : g.configuration = c := hconfiguration
  obtain ⟨built, hgrown, _⟩ := Traversal.exists_build (ResourceGraph.sound_completed hsound)
  refine ⟨built, g.completed.issues ++ built.issues, fun s => ?_⟩
  -- nothing before the last step looks at how siblings are to be sorted
  have htakenSorting : (ResourceGraph.new (c.sorting s)).ingestAll triples =
      .ok (g.configured (c.sorting s)) := by
    have halike := ResourceGraph.ingestAll_configured (g := .new c) (c := c.sorting s)
      fun t (_ : t ∈ triples) => takesAlike_sorting s t
    rwa [htaken] at halike
  have hopenSorting : (g.configured (c.sorting s)).frozen = false := hopen
  have hfinished := ResourceGraph.finish_eq hopenSorting
  rw [ResourceGraph.completed_configured (by rw [hsame]; rfl)] at hfinished
  have hkept : g.completed.configuration = c := ResourceGraph.configuration_completed.trans hsame
  have hgrownSorting : Traversal.build (g.completed.configured (c.sorting s)) = .ok built := by
    rw [Traversal.build_configured (by rw [hkept]; rfl) (by rw [hkept]; rfl), hgrown]
  have hvalidSorting : (c.sorting s).validate = .ok () := hvalid
  exact transform_eq hvalidSorting htakenSorting hopenSorting hfinished hgrownSorting

/-- Notation has to do with presentation only. Configurations that differ in nothing else lead to
the same issues and flags, and to forests that differ in the order of siblings and in marks only. A
forest that could not be sorted is the one of the configuration without notation. -/
theorem notation_conservative (c c' : Configuration) (triples : List Rdf.Triple)
    (hvalid : c.validate = .ok ()) (hdiffer : c' = c.sorting c'.notationSort) :
    ∃ plain outcome outcome', transform (c.sorting none) triples = .ok plain ∧
      transform c triples = .ok outcome ∧ transform c' triples = .ok outcome' ∧
      outcome'.issues = outcome.issues ∧ outcome'.messages = outcome.messages ∧
      outcome'.cycle = outcome.cycle ∧ outcome'.onlyTreeEdges = outcome.onlyTreeEdges ∧
      Alike outcome'.forest outcome.forest ∧
      (outcome.notationFault.isSome = true → outcome.forest = plain.forest) ∧
      (outcome'.notationFault.isSome = true → outcome'.forest = plain.forest) := by
  obtain ⟨built, issues, htransformed⟩ := transform_sorting triples hvalid
  have htransformed' := htransformed c'.notationSort
  rw [← hdiffer] at htransformed'
  refine ⟨_, _, _, htransformed none, htransformed c.notationSort, htransformed', rfl, rfl, rfl,
    rfl, ?_, sortedForest_of_fault, sortedForest_of_fault⟩
  exact (sortedForest_alike _ _).trans (sortedForest_alike _ _).symm

theorem notation_conservative_small :
    Configuration.validate {} = .ok () ∧
    ({ notationSort := some {} } : Configuration) = Configuration.sorting {} (some {}) ∧
    ∃ plain outcome outcome',
      transform (Configuration.sorting {} none) smallStatements = .ok plain ∧
      transform {} smallStatements = .ok outcome ∧
      transform { notationSort := some {} } smallStatements = .ok outcome' ∧
      outcome'.issues = outcome.issues ∧ outcome'.messages = outcome.messages ∧
      outcome'.cycle = outcome.cycle ∧ outcome'.onlyTreeEdges = outcome.onlyTreeEdges ∧
      Alike outcome'.forest outcome.forest ∧
      (outcome.notationFault.isSome = true → outcome.forest = plain.forest) ∧
      (outcome'.notationFault.isSome = true → outcome'.forest = plain.forest) :=
  ⟨rfl, rfl, notation_conservative {} { notationSort := some {} } smallStatements rfl rfl⟩

end Thesaurus
