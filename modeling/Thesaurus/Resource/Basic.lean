import Thesaurus.IdSet
import Thesaurus.Resource.View

/-!
# Resources (design §3)

- `Links`: how a resource is related to others.
- `Resource`: a node of the graph with its kind, texts and links.
-/

namespace Thesaurus

open Rdf (Node)

/-- The scaffolding edges of a resource (§3), which are never shown: its broader and narrower
concepts; its members, if it is a collection, with the first cell of their list and the order that
the list gives them; the schemes and collections it is in; and, if it is a scheme, the resources in
it and its declared top concepts. -/
structure Links where
  broader : IdSet := ∅
  narrower : IdSet := ∅
  members : IdSet := ∅
  memberList : Option Node := none
  orderedMembers : Option (List ResourceId) := none
  inSchemes : IdSet := ∅
  inCollections : IdSet := ∅
  schemeMembers : IdSet := ∅
  topConcepts : IdSet := ∅
deriving DecidableEq, Inhabited

/-- The links with every id renamed, and without the ids that have no new name (`remap`). -/
def Links.rename (newId : ResourceId → Option ResourceId) (l : Links) : Links :=
  { l with
    broader := l.broader.filterMap newId
    narrower := l.narrower.filterMap newId
    members := l.members.filterMap newId
    orderedMembers := l.orderedMembers.map (·.filterMap newId)
    inSchemes := l.inSchemes.filterMap newId
    inCollections := l.inCollections.filterMap newId
    schemeMembers := l.schemeMembers.filterMap newId
    topConcepts := l.topConcepts.filterMap newId }

/-- A resource (§3): its index in the graph, the node it stands for, its kind, the URL form of its
IRI where that was asked for and differs, its texts and its links. -/
structure Resource where
  id : ResourceId
  node : Node
  kind : Kind := .unknown
  url : Option String := none
  texts : Texts := {}
  links : Links := {}
deriving DecidableEq, Inhabited

/-- What is shown of a resource. -/
def Resource.view (r : Resource) : View :=
  { r.texts with iri := r.node.text, url := r.url, kind := r.kind }

end Thesaurus
