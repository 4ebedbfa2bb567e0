import Thesaurus.Graph.Ingest

/-!
# Finishing the graph (design §3, §4.2)

When all statements are in, member lists are read, schemes are taken out of collections, resources
of unknown kind are left out where schemes or collections are shown, and top concepts are checked.

- `ResourceGraph.readMemberLists`: the declared orders of ordered collections.
- `ResourceGraph.dropSchemesFromCollections`: only concepts and collections can be members.
- `ResourceGraph.prune`: leaves out unknown resources, renumbers the others and makes the index
  anew.
- `ResourceGraph.checkTopConcepts`: top concepts with a broader concept in their scheme.
- `ResourceGraph.finish`: all of these, once.
-/

namespace Thesaurus

open Rdf (Node)

namespace ResourceGraph

/-! ## Member lists -/

/-- What a member list declares: the members in order if the list agrees with the members, and what
is wrong with it. -/
structure DeclaredOrder where
  order : Option (List ResourceId)
  issues : List Issue
deriving DecidableEq, Repr

/-- The id of a listed element, if it is one of the members. -/
def listedMember? (g : ResourceGraph) (members : IdSet) (element : Node) : Option ResourceId :=
  (g.lookup element).filter (· ∈ members)

/-- The order that a list of elements declares for the members of a collection. It is valid if its
elements are exactly the members. -/
def declaredOrder (g : ResourceGraph) (collection : Node) (members : IdSet)
    (elements : List Node) : DeclaredOrder :=
  let ordered := elements.filterMap (g.listedMember? members)
  let notMembers := elements.filter fun e => (g.listedMember? members e).isNone
  let notListed := members.toList.filter fun m => !ordered.contains m
  if notMembers.isEmpty && notListed.isEmpty then ⟨some ordered, []⟩
  else ⟨none, [.orderedMembersMismatch collection notMembers (g.nodesOf notListed)]⟩

/-- The declared order of a resource's members, if it is an ordered collection with a list. -/
def memberOrder? (g : ResourceGraph) (r : Resource) : Option DeclaredOrder :=
  if r.kind = .orderedCollection then
    r.links.memberList.map fun head =>
      let list := g.cells.resolve r.node head
      let declared := g.declaredOrder r.node r.links.members list.elements
      { declared with issues := list.issues ++ declared.issues }
  else none

/-- Reads the member lists of all ordered collections (`resolve_member_lists`). -/
def readMemberLists (g : ResourceGraph) : ResourceGraph :=
  { g with
    resources := g.resources.map fun r =>
      match g.memberOrder? r with
      | some ⟨some order, _⟩ => { r with links := { r.links with orderedMembers := some order } }
      | _ => r
    issues := g.issues ++
      g.resources.toList.flatMap fun r => (g.memberOrder? r).elim [] (·.issues) }

/-! ## Members that are schemes -/

/-- Whether a resource is a scheme. -/
def isScheme (g : ResourceGraph) (id : ResourceId) : Bool :=
  g.kindOf id == .conceptScheme

/-- The links of a resource when schemes are no members: a collection has lost its schemes, and a
scheme is in no collection. -/
def linksWithoutSchemes (g : ResourceGraph) (r : Resource) : Links :=
  if r.kind.isCollection then
    { r.links with
      members := r.links.members.filter (!g.isScheme ·)
      orderedMembers := r.links.orderedMembers.map (·.filter (!g.isScheme ·)) }
  else if r.kind = .conceptScheme then { r.links with inCollections := ∅ }
  else r.links

/-- The schemes among the members of a resource, as issues. -/
def schemeMemberIssues (g : ResourceGraph) (r : Resource) : List Issue :=
  if r.kind.isCollection then
    (g.nodesOf (r.links.members.toList.filter g.isScheme)).map (.wrongMemberKind r.node ·)
  else []

/-- Takes the schemes out of the collections (`drop_wrong_member_kinds`). -/
def dropSchemesFromCollections (g : ResourceGraph) : ResourceGraph :=
  { g with
    resources := g.resources.map fun r => { r with links := g.linksWithoutSchemes r }
    issues := g.issues ++ g.resources.toList.flatMap g.schemeMemberIssues }

/-! ## Pruning -/

/-- For each flag the number of flags set before it, or none if it is not set itself. -/
def positions (next : Nat) : List Bool → List (Option Nat)
  | [] => []
  | true :: rest => some next :: positions (next + 1) rest
  | false :: rest => none :: positions next rest

/-- The new ids of the resources when those of unknown kind are left out. -/
def newIds (g : ResourceGraph) : Array (Option ResourceId) :=
  (positions 0 (g.resources.toList.map (·.kind.isKnown))).toArray

/-- The index of some resources, which are entered one after the other. -/
def indexOf (resources : List Resource) : Table Node ResourceId :=
  resources.foldl (fun index r => index.insert r.node r.id) ∅

/-- Leaves out the resources of unknown kind and renumbers the others in their order. Their index is
made anew. A graph without unknown resources stays as it is. -/
def prune (g : ResourceGraph) : ResourceGraph :=
  if g.resources.all (·.kind.isKnown) then g
  else
    let ids := g.newIds
    let newId := fun (id : ResourceId) => ids[id]?.join
    let kept := g.resources.filterMap fun r =>
      (newId r.id).map fun id => { r with id := id, links := r.links.rename newId }
    { g with
      resources := kept
      index := indexOf kept.toList
      counters := { g.counters with pruned := g.size - kept.size } }

/-- Closes the graph to statements. Where schemes or collections are shown, resources of unknown
kind are left out. -/
def freeze (g : ResourceGraph) : ResourceGraph :=
  let g := { g with frozen := true }
  if g.configuration.filtersByType then g.prune else g

/-! ## Top concepts -/

/-- The first broader concept of a resource that belongs to the given scheme. -/
def innerBroader? (scheme concept : Resource) : Option ResourceId :=
  concept.links.broader.toList.find? (· ∈ scheme.links.schemeMembers)

/-- The issue with a declared top concept of a scheme, if it has a broader concept there. -/
def topConceptIssue? (g : ResourceGraph) (scheme : Resource) (top : ResourceId) : Option Issue :=
  match g.resources[top]? with
  | none => none
  | some concept =>
    match (innerBroader? scheme concept).bind (g.resources[·]?) with
    | none => none
    | some broader => some (.topConceptHasBroader concept.node scheme.node broader.node)

/-- The issues with the declared top concepts of a resource, if it is a scheme. -/
def topConceptIssues (g : ResourceGraph) (r : Resource) : List Issue :=
  if r.kind = .conceptScheme then r.links.topConcepts.toList.filterMap (g.topConceptIssue? r)
  else []

/-- Records the top concepts that have a broader concept in their own scheme. -/
def checkTopConcepts (g : ResourceGraph) : ResourceGraph :=
  { g with issues := g.issues ++ g.resources.toList.flatMap g.topConceptIssues }

/-! ## All together -/

/-- The graph as it is when all statements are in. -/
def completed (g : ResourceGraph) : ResourceGraph :=
  g.readMemberLists.dropSchemesFromCollections.freeze.checkTopConcepts

/-- Finishes the graph, once. -/
def finish (g : ResourceGraph) : Except Defect ResourceGraph :=
  if g.frozen then .error .frozen else .ok g.completed

end ResourceGraph

end Thesaurus
