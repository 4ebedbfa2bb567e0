import Thesaurus.Graph.Basic

/-!
# Contexts (design §4.3)

Inside a scheme or collection a concept is shown through a *deputy*: it looks like the concept, but
its broader and narrower concepts are only those that are members of the same context.

- `Context`: a scheme or collection with the concepts in it, made by `Context.of`.
- `Context.roots`: the concepts that are shown directly below the context.
- `Deputy`, `Context.deputy`: how a concept is shown in a context.
-/

namespace Thesaurus

/-- A scheme or collection (a context in §4.3) with those of its members that are concepts, and
those that are declared top concepts. It is `flat` if it is an ordered collection with a valid
order, which is shown without a hierarchy. -/
structure Context where
  id : ResourceId
  members : IdSet
  tops : IdSet
  flat : Bool
deriving DecidableEq

/-- The deputy of a concept in a context (§4.3): what is shown of it, which of its broader and
narrower concepts are in the context, and whether it is a declared top concept there. -/
structure Deputy where
  context : ResourceId
  view : View
  broader : IdSet
  narrower : IdSet
  topConcept : Bool
deriving DecidableEq

namespace Context

/-- The concepts among the resources with the given ids, all of which have to exist. -/
def conceptsAmong (g : ResourceGraph) (ids : IdSet) : Except Defect IdSet :=
  match g.requireAll ids.toList with
  | .error d => .error d
  | .ok () => .ok (ids.filter (g.kindOf · == .concept))

/-- The context that a scheme or collection is. No other resource is one. -/
def of (g : ResourceGraph) (r : Resource) : Except Defect Context :=
  match r.kind with
  | .conceptScheme =>
    match conceptsAmong g r.links.schemeMembers with
    | .error d => .error d
    | .ok members => .ok ⟨r.id, members, r.links.topConcepts.inter members, false⟩
  | .orderedCollection =>
    match conceptsAmong g r.links.members with
    | .error d => .error d
    | .ok members => .ok ⟨r.id, members, ∅, r.links.orderedMembers.isSome⟩
  | .collection =>
    match conceptsAmong g r.links.members with
    | .error d => .error d
    | .ok members => .ok ⟨r.id, members, ∅, false⟩
  | .concept | .unknown => .error (.missingContext r.node)

/-- Whether a concept is a declared top concept of the context. -/
def isTop (c : Context) (id : ResourceId) : Bool :=
  id ∈ c.tops

/-- The ids of a set that are members of the context; a flat context has no hierarchy. -/
def restrict (c : Context) (ids : IdSet) : IdSet :=
  if c.flat then ∅ else ids.inter c.members

/-- How a resource is shown in the context (`make`). -/
def deputyOf (c : Context) (r : Resource) : Deputy where
  context := c.id
  view := r.view
  broader := c.restrict r.links.broader
  narrower := c.restrict r.links.narrower
  topConcept := c.isTop r.id

/-- How the resource with a given id is shown in the context. -/
def deputy (g : ResourceGraph) (c : Context) (id : ResourceId) : Except Defect Deputy :=
  match g.resource id with
  | .error d => .error d
  | .ok r => .ok (c.deputyOf r)

/-- Whether a concept has a broader concept in the context. -/
def hasBroader (g : ResourceGraph) (c : Context) (id : ResourceId) : Bool :=
  !(c.restrict (g.linksOf id).broader).isEmpty

/-- The concepts shown directly below the context: declared top concepts and concepts without a
broader concept in the context. -/
def roots (g : ResourceGraph) (c : Context) : List ResourceId :=
  c.members.toList.filter fun id => c.isTop id || !c.hasBroader g id

end Context

/-! ## Open contexts -/

/-- The contexts that are open, each found by its id. -/
abbrev OpenContexts := ResourceId → Option Context

/-- The contexts that are open below a resource, which may be one itself. -/
def OpenContexts.enter (contexts : OpenContexts) : Option Context → OpenContexts
  | none => contexts
  | some c => fun id => if id = c.id then some c else contexts id

end Thesaurus
