import Thesaurus.Hierarchy.Stats
import Thesaurus.Proofs.Graph.Access

/-!
# Statistics of any graph

Descents stay among the ids of the graph, so whatever lies on a cycle exists.

- `Hierarchy.mem_of_mem_reach`: a descent finds fresh ids only.
- `ResourceGraph.checkedStats_eq`: statistics never fail.
-/

namespace Thesaurus

namespace Hierarchy

variable {next : ResourceId → List ResourceId} {fresh : IdSet} {pending : List ResourceId}
  {id other : ResourceId} {bound : Nat}

theorem mem_of_mem_reach (h : other ∈ reach next fresh pending) : other ∈ fresh := by
  fun_induction reach next fresh pending with
  | case1 => cases h
  | case2 fresh id rest hmem ih =>
    rcases List.mem_cons.1 h with rfl | h
    · exact hmem
    · exact (IdSet.mem_erase.1 (ih h)).1
  | case3 fresh id rest hnotFresh ih => exact ih h

theorem lt_of_mem_descendants (h : other ∈ descendants next bound id) : other < bound :=
  IdSet.mem_below.1 (mem_of_mem_reach (IdSet.mem_ofList.1 h))

end Hierarchy

namespace ResourceGraph

/-- What the table gives for an id are ids of the graph. -/
theorem lt_of_mem_table {g : ResourceGraph} {id other : ResourceId}
    (h : other ∈ tableAt g.narrowerTable id) : other < g.size := by
  unfold tableAt narrowerTable Hierarchy.descendantTable at h
  rw [Array.getElem?_map] at h
  cases hfound : (Array.range g.size)[id]? with
  | none =>
    rw [hfound] at h
    exact absurd h (IdSet.not_mem_empty other)
  | some id' =>
    rw [hfound] at h
    exact Hierarchy.lt_of_mem_descendants h

/-- The statistics of a graph never fail. -/
theorem checkedStats_eq (g : ResourceGraph) : g.checkedStats = .ok g.stats := by
  have hinside : ∀ id ∈ g.cyclicIds, id < g.size := by
    intro id hid
    obtain ⟨component, hcomponent, hmem⟩ := List.mem_flatMap.1 hid
    obtain ⟨least, _, rfl⟩ := List.mem_map.1 hcomponent
    exact lt_of_mem_table (IdSet.mem_filter.1 hmem).1
  rw [checkedStats, requireAll_ok hinside]

end ResourceGraph

end Thesaurus
