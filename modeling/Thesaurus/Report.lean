import Thesaurus.Forest.Encoding
import Thesaurus.Session

/-!
# Reports (design §6)

What is printed of an outcome and of statistics.

- `Outcome.toJson`: the outcome of a transform as JSON.
- `HierarchyStats.toJson`: statistics as JSON.
-/

namespace Thesaurus

/-- The outcome of a transform as an object. A fault that prevented sorting is explained. -/
def Outcome.toJson (o : Outcome) : Json :=
  .object [
    ("forest", o.forest.toJson),
    ("cycle", .bool o.cycle),
    ("only_tree_edges", .bool o.onlyTreeEdges),
    ("diagnostics", .array (o.messages.map .string)),
    ("notation_error", o.notationFault.elim .null (.string ·.explanation))]

/-- A cycle as an object. -/
def CycleComponent.toJson (c : CycleComponent) : Json :=
  .object [("members", .array (c.members.map .string))]

/-- Statistics as an object. -/
def HierarchyStats.toJson (s : HierarchyStats) : Json :=
  .object [
    ("concepts", .number s.concepts),
    ("schemes", .number s.schemes),
    ("collections", .number s.collections),
    ("ordered_collections", .number s.orderedCollections),
    ("untyped", .number s.untyped),
    ("hierarchy_edges", .number s.hierarchyEdges),
    ("top_level_concepts", .number s.topLevelConcepts),
    ("max_depth", .number s.maxDepth),
    ("cycles", .array (s.cycles.map (·.toJson)))]

end Thesaurus
