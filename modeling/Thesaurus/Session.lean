import Thesaurus.Forest.Builder
import Thesaurus.Forest.Ranking
import Thesaurus.Graph.Finish
import Thesaurus.Hierarchy.Stats

/-!
# Transforms (design §5)

- `Session`: one transform, to which statements are given before its forest is built.
- `Outcome`: the forest, and what was found on the way.
- `transform`: a whole transform of given statements.
- `Failure`: why a transform came to no outcome.
-/

namespace Thesaurus

open Rdf (Triple)

/-- Why a transform came to no outcome: its configuration cannot be used, or there was a defect
(§7). -/
inductive Failure where
  | configuration (error : ConfigurationError)
  | defect (defect : Defect)
deriving DecidableEq, Repr

/-- What a transform gives (§6): the forest, whether a cycle was met, whether only tree edges were
used, the data errors, and why siblings could not be sorted by notation if they were to be. -/
structure Outcome where
  forest : Forest
  cycle : Bool
  onlyTreeEdges : Bool
  issues : List Issue
  notationFault : Option Notation.Fault
deriving DecidableEq

/-- The messages for what is wrong with the data. -/
def Outcome.messages (o : Outcome) : List String :=
  o.issues.map (·.message)

/-- The forest that siblings are to be sorted in by notation: the sorted one, or the given one and
the fault that prevents it. -/
def sortedForest (sorting : Option Notation.Sorting) (f : Forest) :
    Forest × Option Notation.Fault :=
  match sorting with
  | none => (f, none)
  | some s => Ranking.apply s f

/-- One transform (§5), which owns the graph that statements are added to before the forest is
built. -/
structure Session where
  graph : ResourceGraph
deriving DecidableEq

namespace Session

/-- A session without statements, if the configuration can be used (`new`). -/
def start (c : Configuration) : Except ConfigurationError Session :=
  match c.validate with
  | .error e => .error e
  | .ok () => .ok ⟨.new c⟩

/-- Takes in a statement. -/
def ingest (s : Session) (t : Triple) : Except Defect Session :=
  match s.graph.ingest t with
  | .error d => .error d
  | .ok g => .ok ⟨g⟩

/-- Takes in statements in order. -/
def ingestAll (s : Session) (triples : List Triple) : Except Defect Session :=
  match s.graph.ingestAll triples with
  | .error d => .error d
  | .ok g => .ok ⟨g⟩

/-- Finishes the graph, unless this has been done. -/
def finish (s : Session) : Except Defect Session :=
  if s.graph.frozen then .ok s
  else
    match s.graph.finish with
    | .error d => .error d
    | .ok g => .ok ⟨g⟩

/-- Finishes the graph and gives its statistics. -/
def stats (s : Session) : Except Defect (Session × HierarchyStats) :=
  match s.finish with
  | .error d => .error d
  | .ok s =>
    match s.graph.checkedStats with
    | .error d => .error d
    | .ok stats => .ok (s, stats)

/-- Finishes the graph and builds its forest. -/
def build (s : Session) : Except Defect Outcome :=
  match s.finish with
  | .error d => .error d
  | .ok s =>
    match Builder.build s.graph with
    | .error d => .error d
    | .ok built =>
      let (forest, fault) := sortedForest s.graph.configuration.notationSort built.forest
      .ok
        { forest := forest
          cycle := built.cycle
          onlyTreeEdges := built.onlyTreeEdges
          issues := s.graph.issues ++ built.issues
          notationFault := fault }

end Session

/-- The outcome of a whole transform. -/
def transform (c : Configuration) (triples : List Triple) : Except Failure Outcome :=
  match Session.start c with
  | .error e => .error (.configuration e)
  | .ok s =>
    match s.ingestAll triples with
    | .error d => .error (.defect d)
    | .ok s =>
      match s.build with
      | .error d => .error (.defect d)
      | .ok o => .ok o

end Thesaurus
