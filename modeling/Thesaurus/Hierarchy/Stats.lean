import Thesaurus.Graph.Basic
import Thesaurus.Hierarchy.Descent

/-!
# Statistics of the hierarchy (design §F.6)

- `ResourceGraph.cycleComponents`: the groups of concepts that lie on common cycles.
- `ResourceGraph.isAcyclic`: whether no concept is narrower than itself.
- `HierarchyStats`, `ResourceGraph.stats`: counts by kind, longest chain and cycles.
- `ResourceGraph.checkedStats`: the same, if all that lies on cycles exists.
-/

namespace Thesaurus

/-- A group of concepts each of which is narrower than every other, and so than itself. The members
are sorted texts. -/
structure CycleComponent where
  members : List String
deriving DecidableEq, Inhabited, Repr

/-- What `hierarchy_stats` counts: the resources of each kind, the pairs of a concept and a narrower
one, the concepts without a broader one, the length of the longest chain of narrower concepts, in
which a cycle counts as one, and the cycles. -/
structure HierarchyStats where
  concepts : Nat := 0
  schemes : Nat := 0
  collections : Nat := 0
  orderedCollections : Nat := 0
  untyped : Nat := 0
  hierarchyEdges : Nat := 0
  topLevelConcepts : Nat := 0
  maxDepth : Nat := 0
  cycles : List CycleComponent := []
deriving DecidableEq, Inhabited, Repr

namespace ResourceGraph

/-- All ids, ascending. -/
def ids (g : ResourceGraph) : List ResourceId :=
  List.range g.size

/-- The narrower concepts of a resource, ascending. -/
def narrowerOf (g : ResourceGraph) (id : ResourceId) : List ResourceId :=
  (g.linksOf id).narrower.toList

/-- A table of what is narrower than each resource in one or more steps. -/
def narrowerTable (g : ResourceGraph) : Array IdSet :=
  Hierarchy.descendantTable g.narrowerOf g.size

/-- What a table gives for an id. -/
def tableAt (table : Array IdSet) (id : ResourceId) : IdSet :=
  table[id]?.getD ∅

/-- Larger components come first, and components of one size in the order of their members. -/
def compareComponents (a b : CycleComponent) : Ordering :=
  (compare b.members.length a.members.length).then (compare a.members b.members)

/-- The members of a component as text, sorted. -/
def componentOf (g : ResourceGraph) (members : IdSet) : CycleComponent :=
  ⟨sortOn id compare ((g.nodesOf members.toList).map (·.text))⟩

/-- The groups of concepts that lie on common cycles, in the order of `compareComponents`. -/
def cycleComponents (g : ResourceGraph) : List CycleComponent :=
  let table := g.narrowerTable
  sortOn id compareComponents ((Hierarchy.components (tableAt table) g.ids).map g.componentOf)

/-- Whether no concept is narrower than itself. -/
def isAcyclic (g : ResourceGraph) : Bool :=
  (Hierarchy.peel g.narrowerOf g.ids).isEmpty

/-- The length of the longest chain of narrower concepts, where a cycle counts as one. -/
def maxDepth (g : ResourceGraph) : Nat :=
  let table := g.narrowerTable
  Hierarchy.depth (tableAt table) g.ids

/-- The number of resources of a kind. -/
def countKind (g : ResourceGraph) (kind : Kind) : Nat :=
  g.resources.toList.countP (·.kind = kind)

/-- The statistics of the graph. -/
def stats (g : ResourceGraph) : HierarchyStats where
  concepts := g.countKind .concept
  schemes := g.countKind .conceptScheme
  collections := g.countKind .collection
  orderedCollections := g.countKind .orderedCollection
  untyped := g.countKind .unknown
  hierarchyEdges := (g.resources.toList.flatMap (·.links.narrower.toList)).length
  topLevelConcepts :=
    g.resources.toList.countP fun r => r.kind = .concept && r.links.broader.isEmpty
  maxDepth := g.maxDepth
  cycles := g.cycleComponents

/-- The ids on cycles. -/
def cyclicIds (g : ResourceGraph) : List ResourceId :=
  let table := g.narrowerTable
  (Hierarchy.components (tableAt table) g.ids).flatMap (·.toList)

/-- The statistics of the graph, where every resource on a cycle has to exist
(`hierarchy_stats`). -/
def checkedStats (g : ResourceGraph) : Except Defect HierarchyStats :=
  match g.requireAll g.cyclicIds with
  | .error d => .error d
  | .ok () => .ok g.stats

end ResourceGraph

end Thesaurus
