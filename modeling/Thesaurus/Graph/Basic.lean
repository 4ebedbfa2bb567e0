import Thesaurus.Configuration.Basic
import Thesaurus.MemberList
import Thesaurus.Resource.Basic
import Thesaurus.Text.Percent

/-!
# The resource graph (design §4.1)

Here and in the other components of the design, a definition stands for the operation of the program
that has its name, or whose name it gives in parentheses; definitions without such a name are parts
of these. Sections (§) are those of the design.

- `ResourceGraph`: the resources met so far, with all that is needed to take in more statements.
- `Defect`: what only a faulty graph or a wrong order of calls can provoke.
- `ResourceGraph.lookup`, `ResourceGraph.resource`: resources by node and by id.
- `ResourceGraph.requireAll`: whether all of some ids belong to resources.
- `ResourceGraph.ensure`: adds the resource of a node that is new.
- `ResourceGraph.update`: changes one resource.
-/

namespace Thesaurus

open Rdf (Node)

/-- What only a faulty graph or a wrong order of calls can provoke (the defects of §7): an id that
belongs to none of the `size` resources, a concept shown in a context that is not open or in none, a
resource of unknown kind in a tree, a statement or a second finish for a finished graph, a traversal
without open resources before its root was closed, and a predicate that reached the rules for the
other kind of predicates. -/
inductive Defect where
  | danglingResource (id : ResourceId) (size : Nat)
  | missingContext (node : Node)
  | untypedResource (node : Node)
  | frozen
  | stackUnderflow (iri : String)
  | misroutedPredicate (predicate handler : String)
deriving DecidableEq, Repr

namespace Defect

/-- The short identifier of the kind of defect. -/
def code : Defect → String
  | danglingResource .. => "skos::transform::dangling_resource"
  | missingContext _ => "skos::transform::missing_context"
  | untypedResource _ => "skos::transform::untyped_resource"
  | frozen => "skos::transform::frozen"
  | stackUnderflow _ => "skos::transform::stack_underflow"
  | misroutedPredicate .. => "skos::transform::misrouted_predicate"

/-- What is wrong, in one line. -/
def message : Defect → String
  | danglingResource id size =>
    "resource index " ++ toString id ++ " is not part of the graph (" ++ toString size
      ++ " resources)"
  | missingContext node =>
    "traversal frame for " ++ node.text ++ " expected a context but had none"
  | untypedResource node =>
    "resource " ++ node.text ++ " reached the forest builder with unresolved type"
  | frozen => "triple ingested after the resource graph was frozen"
  | stackUnderflow iri => "traversal stack underflow while closing " ++ iri
  | misroutedPredicate predicate handler =>
    "predicate " ++ predicate ++ " was routed to the " ++ handler ++ " handler"

end Defect

/-- How many statements came in, how many of them were ignored, and how many resources were pruned
at the end (§3). -/
structure Counters where
  triples : Nat := 0
  ignored : Nat := 0
  pruned : Nat := 0
deriving DecidableEq, Inhabited, Repr

/-- The resource graph (§4.1): the resources met so far, each at its id, with the ids at which their
nodes are found (`index`), the list cells, the data errors in the order in which they were found,
and the counters. It is `frozen` once it is finished. -/
structure ResourceGraph where
  configuration : Configuration
  resources : Array Resource := #[]
  index : Table Node ResourceId := ∅
  cells : CellStore := {}
  issues : List Issue := []
  counters : Counters := {}
  frozen : Bool := false
deriving DecidableEq, Inhabited

namespace ResourceGraph

/-- The graph before any statement. -/
def new (configuration : Configuration) : ResourceGraph :=
  { configuration := configuration }

/-- The number of resources (`len`). -/
def size (g : ResourceGraph) : Nat :=
  g.resources.size

/-- The id of the resource of a node, if there is one. The index is asked and not the resources:
that the two agree is an invariant. -/
def lookup (g : ResourceGraph) (n : Node) : Option ResourceId :=
  g.index.get? n

/-- The resource with a given id. -/
def resource (g : ResourceGraph) (id : ResourceId) : Except Defect Resource :=
  match g.resources[id]? with
  | some r => .ok r
  | none => .error (.danglingResource id g.size)

/-- Looks up all resources with the given ids, in order; the first id without a resource is a
defect. -/
def requireAll (g : ResourceGraph) : List ResourceId → Except Defect Unit
  | [] => .ok ()
  | id :: rest =>
    match g.resource id with
    | .error d => .error d
    | .ok _ => g.requireAll rest

/-- The kind of a resource; an id without a resource has none. -/
def kindOf (g : ResourceGraph) (id : ResourceId) : Kind :=
  g.resources[id]?.elim .unknown (·.kind)

/-- The links of a resource; an id without a resource has none. -/
def linksOf (g : ResourceGraph) (id : ResourceId) : Links :=
  g.resources[id]?.elim {} (·.links)

/-- The nodes of the resources with the given ids. -/
def nodesOf (g : ResourceGraph) (ids : List ResourceId) : List Node :=
  ids.filterMap fun id => g.resources[id]?.map (·.node)

/-- The issues as they are shown. -/
def diagnostics (g : ResourceGraph) : List Diagnostic :=
  g.issues.map (·.diagnostic)

/-! ## Changes -/

/-- Changes the resource with a given id (`resource_mut`). -/
def update (g : ResourceGraph) (id : ResourceId) (change : Resource → Resource) : ResourceGraph :=
  { g with resources := g.resources.modify id change }

/-- Changes the links of the resource with a given id. -/
def updateLinks (g : ResourceGraph) (id : ResourceId) (change : Links → Links) : ResourceGraph :=
  g.update id fun r => { r with links := change r.links }

/-- Records an issue. -/
def report (g : ResourceGraph) (i : Issue) : ResourceGraph :=
  { g with issues := g.issues ++ [i] }

/-- Counts a statement as ignored. -/
def ignore (g : ResourceGraph) : ResourceGraph :=
  { g with counters := { g.counters with ignored := g.counters.ignored + 1 } }

/-- The resource of a node of which nothing is known yet. An IRI has its URL form if the
configuration asks for it. -/
def newResource (g : ResourceGraph) (n : Node) : Resource :=
  { id := g.size
    node := n
    url :=
      match n with
      | .iri value => if g.configuration.resolveUrls then Text.urlForm? value else none
      | .blank _ => none }

/-- The id that the resource of a node has, or will have once it is added. -/
def idOf (g : ResourceGraph) (n : Node) : ResourceId :=
  (g.lookup n).getD g.size

/-- The graph with a resource for a node. If there was none, it is added at the end and entered into
the index. -/
def ensure (g : ResourceGraph) (n : Node) : ResourceGraph :=
  if (g.lookup n).isSome then g
  else
    { g with
      resources := g.resources.push (g.newResource n)
      index := g.index.insert n g.size }

end ResourceGraph

end Thesaurus
