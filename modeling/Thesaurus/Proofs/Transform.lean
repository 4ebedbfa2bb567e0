import Thesaurus.Proofs.Forest.Builder
import Thesaurus.Proofs.Forest.Shape
import Thesaurus.Proofs.Graph.Finish
import Thesaurus.Proofs.Hierarchy.Stats
import Thesaurus.Session

/-!
# Transforms

- `Traversal.Advances`, `Traversal.Promotes`: the loops of a traversal as relations between their
  states, with `Builder.Advances` and `Builder.Promotes` for the builder.
- `transform_eq`: a transform is what becomes of its graph.
- `nothing_fails`: no call ever meets a defect, and both loops end.
- `owns_each_once`: the forest owns every resource of known kind once, and nothing else.
-/

namespace Thesaurus

open Rdf (Triple)

namespace Traversal

/-- One turn of the loop that grows a tree leads from one stage to another. -/
def Advances (g : ResourceGraph) (rootIri : String) (next s : Stage) : Prop :=
  turn g rootIri s = .ok (.next next)

/-- One round of the loop that grows trees from what is left leads from one progress to another. -/
def Promotes (g : ResourceGraph) (later p : Progress) : Prop :=
  ∃ id rest tree, p.unvisited.toList = id :: rest ∧ grow g { target := id } p = .ok (tree, later)

theorem lex_wellFounded :
    WellFounded (Prod.Lex (· < · : Nat → Nat → Prop) (· < · : Nat → Nat → Prop)) :=
  (Prod.lex Nat.lt_wfRel Nat.lt_wfRel).wf

/-- No tree is grown forever, in whatever graph. -/
theorem advances_wellFounded (g : ResourceGraph) (rootIri : String) :
    WellFounded (Advances g rootIri) :=
  Subrelation.wf (fun hstep => turn_decreases hstep) (InvImage.wf Stage.measure lex_wellFounded)

/-- Each round that grows a tree from what is left leaves less, so these rounds end too. -/
theorem promotes_wellFounded (g : ResourceGraph) : WellFounded (Promotes g) := by
  refine Subrelation.wf ?_ (InvImage.wf (fun p : Progress => p.unvisited.size) Nat.lt_wfRel.wf)
  rintro later p ⟨id, rest, tree, hfirst, hgrown⟩
  exact size_of_grow hgrown (IdSet.mem_def.2 (hfirst ▸ List.mem_cons_self))

end Traversal

namespace Builder

/-- One turn of the loop of the builder leads from one stage to another. -/
def Advances (g : ResourceGraph) (rootIri : String) (next s : Stage) : Prop :=
  turn g rootIri s = .ok (.next next)

/-- One round of the builder's other loop leads from one state to another. -/
def Promotes (g : ResourceGraph) (later s : State) : Prop :=
  ∃ id rest tree, s.progress.unvisited.toList = id :: rest ∧
    grow g { target := id } s = .ok (tree, later)

/-- The tables make no tree grow forever, whatever is in them. -/
theorem advances_wellFounded (g : ResourceGraph) (rootIri : String) :
    WellFounded (Advances g rootIri) :=
  Subrelation.wf (fun hstep => turn_decreases hstep)
    (InvImage.wf (fun s : Stage => s.bare.measure) Traversal.lex_wellFounded)

theorem promotes_wellFounded (g : ResourceGraph) : WellFounded (Promotes g) := by
  refine Subrelation.wf ?_
    (InvImage.wf (fun s : State => s.progress.unvisited.size) Nat.lt_wfRel.wf)
  rintro later s ⟨id, rest, tree, hfirst, hgrown⟩
  exact size_of_grow hgrown (IdSet.mem_def.2 (hfirst ▸ List.mem_cons_self))

end Builder

/-- A transform of a configuration that can be used is what becomes of its graph. -/
theorem transform_eq {c : Configuration} {triples : List Triple} {g f : ResourceGraph}
    {built : Traversal.Built} (hvalid : c.validate = .ok ())
    (htaken : (ResourceGraph.new c).ingestAll triples = .ok g) (hopen : g.frozen = false)
    (hfinished : g.finish = .ok f) (hgrown : Traversal.build f = .ok built) :
    transform c triples = .ok
      { forest := (sortedForest f.configuration.notationSort built.forest).1
        cycle := built.cycle
        onlyTreeEdges := built.onlyTreeEdges
        issues := f.issues ++ built.issues
        notationFault := (sortedForest f.configuration.notationSort built.forest).2 } := by
  have hclosed : (Session.mk g).finish = .ok ⟨f⟩ := by
    rw [Session.finish, if_neg (by simp [hopen]), hfinished]
  have hsound : Sound f := (((Reachable.new c).ingestAll htaken).finish hfinished).sound
  have hgrownBuilder : Builder.build f = .ok built := (Builder.build_eq hsound.indexed).trans hgrown
  simp only [transform, Session.start, hvalid, Session.ingestAll, htaken, Session.build, hclosed,
    hgrownBuilder]

/-- Every transform of a configuration that can be used has an outcome. -/
theorem exists_transform {c : Configuration} (triples : List Triple)
    (hvalid : c.validate = .ok ()) : ∃ outcome, transform c triples = .ok outcome := by
  obtain ⟨g, htaken, hsound, _, hopen, _⟩ :=
    ResourceGraph.exists_ingestAll triples (Sound.new c) rfl
  obtain ⟨built, hgrown, _⟩ := Traversal.exists_build (ResourceGraph.sound_completed hsound)
  exact ⟨_, transform_eq hvalid htaken hopen (ResourceGraph.finish_eq hopen) hgrown⟩

/-- Nothing fails: statements are taken in, and graphs are finished, described and built, without
a defect. Both loops of a traversal end, with and without the tables that the builder keeps.
Statistics and forests can also be had of a graph that is not finished yet. -/
theorem nothing_fails (c : Configuration) (triples : List Triple) (hvalid : c.validate = .ok ()) :
    (∃ g f stats built outcome,
      (ResourceGraph.new c).ingestAll triples = .ok g ∧ g.finish = .ok f ∧
      f.checkedStats = .ok stats ∧ Traversal.build f = .ok built ∧
      transform c triples = .ok outcome) ∧
    (∀ g, Reachable g → ∃ stats built,
      g.checkedStats = .ok stats ∧ Traversal.build g = .ok built ∧ Builder.build g = .ok built) ∧
    (∀ g rootIri, WellFounded (Traversal.Advances g rootIri) ∧
      WellFounded (Builder.Advances g rootIri)) ∧
    ∀ g, WellFounded (Traversal.Promotes g) ∧ WellFounded (Builder.Promotes g) := by
  refine ⟨?_, ?_,
    fun g rootIri => ⟨Traversal.advances_wellFounded g rootIri,
      Builder.advances_wellFounded g rootIri⟩,
    fun g => ⟨Traversal.promotes_wellFounded g, Builder.promotes_wellFounded g⟩⟩
  · obtain ⟨g, htaken, hsound, _, hopen, _⟩ :=
      ResourceGraph.exists_ingestAll triples (Sound.new c) rfl
    obtain ⟨f, hfinished, hsoundFinished, _⟩ := ResourceGraph.exists_finish hsound hopen
    obtain ⟨built, hgrown, _⟩ := Traversal.exists_build hsoundFinished
    exact ⟨g, f, f.stats, built, _, htaken, hfinished, f.checkedStats_eq, hgrown,
      transform_eq hvalid htaken hopen hfinished hgrown⟩
  · intro g hreachable
    obtain ⟨built, hgrown, _⟩ := Traversal.exists_build hreachable.sound
    exact ⟨g.stats, built, g.checkedStats_eq, hgrown,
      (Builder.build_eq hreachable.sound.indexed).trans hgrown⟩

theorem nothing_fails_small : Configuration.validate { conceptSchemes := true } = .ok () ∧
    (∃ g f stats built outcome,
      (ResourceGraph.new { conceptSchemes := true }).ingestAll smallStatements = .ok g ∧
      g.finish = .ok f ∧ f.checkedStats = .ok stats ∧ Traversal.build f = .ok built ∧
      transform { conceptSchemes := true } smallStatements = .ok outcome) :=
  ⟨rfl, (nothing_fails { conceptSchemes := true } smallStatements rfl).1⟩

/-! ## What is owned -/

/-- A forest in which siblings were to be sorted by notation is like the forest before. -/
theorem sortedForest_alike (sorting : Option Notation.Sorting) (f : Forest) :
    Alike (sortedForest sorting f).1 f := by
  unfold sortedForest
  split
  · exact .refl f
  · next s => exact Ranking.apply_alike s f

/-- Where no two nodes of some statements print alike, no two resources of the finished graph do. -/
theorem ResourceGraph.printsApart_completed {c : Configuration} {triples : List Triple}
    {g : ResourceGraph} (htaken : (new c).ingestAll triples = .ok g)
    (hapart : PrintApart (triples.flatMap mentioned)) : g.completed.PrintsApart := by
  obtain ⟨g', htaken', hsound, _, _, hnodes⟩ := exists_ingestAll triples (Sound.new c) rfl
  obtain rfl : g' = g := Except.ok.inj (htaken'.symm.trans htaken)
  -- the resources that are left stand for nodes of the statements
  have hnamed : ∀ n ∈ g'.completed.resources.toList.map (·.node),
      n ∈ triples.flatMap mentioned := by
    intro n hn
    obtain ⟨r, hr, rfl⟩ := List.mem_map.1 hn
    obtain ⟨s, hs, hsame⟩ := node_of_completed hsound (Array.mem_toList_iff.1 hr)
    rcases hnodes s hs with hmem | ⟨t, ht, _⟩
    · exact hsame ▸ hmem
    · exact absurd ht (Array.not_mem_empty t)
  exact fun m hm n hn => hapart m (hnamed m hm) n (hnamed n hn)

/-- The forest of a transform owns every resource of known kind just once and nothing else, each
with the view of the resource, and its references have no children. -/
theorem owns_each_once (c : Configuration) (triples : List Triple) (hvalid : c.validate = .ok ())
    (hapart : PrintApart (triples.flatMap mentioned)) :
    ∃ g f outcome, (ResourceGraph.new c).ingestAll triples = .ok g ∧ g.finish = .ok f ∧
      transform c triples = .ok outcome ∧
      (Forest.ownedViews outcome.forest).Perm (Traversal.knownViews f) ∧
      ((Forest.ownedViews outcome.forest).map (·.iri)).Nodup ∧
      outcome.forest.LeafReferences := by
  obtain ⟨g, htaken, hsound, _, hopen, _⟩ :=
    ResourceGraph.exists_ingestAll triples (Sound.new c) rfl
  have hfinished := ResourceGraph.finish_eq hopen
  have hsoundFinished := ResourceGraph.sound_completed hsound
  obtain ⟨built, hgrown, hplaced, hcovered⟩ := Traversal.exists_build hsoundFinished
  have hapart' := ResourceGraph.printsApart_completed htaken hapart
  have halike := sortedForest_alike g.completed.configuration.notationSort built.forest
  have howned := halike.ownedViews_perm.trans (hcovered hapart')
  refine ⟨g, g.completed, _, htaken, hfinished, transform_eq hvalid htaken hopen hfinished hgrown,
    howned, ?_, halike.leafReferences (Traversal.leafReferences hplaced)⟩
  exact (howned.map (·.iri)).nodup_iff.2 (Traversal.nodup_knownViews hsoundFinished hapart')

theorem owns_each_once_small : Configuration.validate { conceptSchemes := true } = .ok () ∧
    PrintApart (smallStatements.flatMap mentioned) ∧
    ∃ g f outcome,
      (ResourceGraph.new { conceptSchemes := true }).ingestAll smallStatements = .ok g ∧
      g.finish = .ok f ∧ transform { conceptSchemes := true } smallStatements = .ok outcome ∧
      (Forest.ownedViews outcome.forest).Perm (Traversal.knownViews f) ∧
      ((Forest.ownedViews outcome.forest).map (·.iri)).Nodup ∧
      outcome.forest.LeafReferences :=
  ⟨rfl, by decide, owns_each_once { conceptSchemes := true } smallStatements rfl (by decide)⟩

end Thesaurus
