import Thesaurus.Graph.Basic

/-!
# Taking in statements (design §4.1)

Statements are folded into the graph one at a time. Nothing in the data stops this: a statement
that makes no sense is recorded as an issue, and one of no interest is counted.

- `ResourceGraph.request`: asks a resource to be of a kind.
- `ResourceGraph.relate`: takes in a relation between two resources.
- `ResourceGraph.describe`: takes in a text of a resource.
- `ResourceGraph.accept`: takes in any statement.
- `ResourceGraph.ingest`, `ResourceGraph.ingestAll`: the same while the graph is not finished.
-/

namespace Thesaurus

open Rdf (Literal Node Predicate Relation TextProperty Triple)

namespace ResourceGraph

/-! ## Kinds -/

/-- Whether a resource is, or may become, of the kind `requested`. -/
def admits (g : ResourceGraph) (id : ResourceId) (requested : Kind) : Bool :=
  (g.kindOf id).transition requested != .conflict

/-- Asks a resource to be of the kind `requested`, because of a relation (`request_type`). A
contradiction is recorded and changes nothing. -/
def request (g : ResourceGraph) (id : ResourceId) (requested : Kind) (cause : Relation) :
    ResourceGraph :=
  match g.resources[id]? with
  | none => g
  | some r =>
    match r.kind.transition requested with
    | .keep => g
    | .set kind => g.update id fun r => { r with kind := kind }
    | .conflict => g.report (.typeConflict r.node r.kind requested cause)

/-- The kind that a class gives its instances, if the configuration considers such resources. -/
def classKind? (c : Configuration) (class_ : Node) : Option Kind :=
  match class_ with
  | .blank _ => none
  | .iri iri =>
    match Kind.ofClass? iri with
    | some .conceptScheme => if c.conceptSchemes then some .conceptScheme else none
    | some .collection => if c.collections then some .collection else none
    | some .orderedCollection => if c.collections then some .orderedCollection else none
    | other => other

/-- Takes in that the subject is an instance of a class (`ingest_type`). -/
def linkType (g : ResourceGraph) (subject class_ : Node) : ResourceGraph :=
  match classKind? g.configuration class_ with
  | none => g.ignore
  | some kind => (g.ensure subject).request (g.idOf subject) kind .type

/-! ## Links -/

/-- Takes in that one concept is broader than another. Both have to be concepts. -/
def linkHierarchy (g : ResourceGraph) (broader narrower : Node) (cause : Relation) :
    ResourceGraph :=
  let upper := g.idOf broader
  let g := g.ensure broader
  let lower := g.idOf narrower
  let g := g.ensure narrower
  let upperFits := g.admits upper .concept
  let g := g.request upper .concept cause
  let lowerFits := g.admits lower .concept
  let g := g.request lower .concept cause
  if upperFits && lowerFits then
    (g.updateLinks upper fun l => { l with narrower := l.narrower.insert lower }).updateLinks lower
      fun l => { l with broader := l.broader.insert upper }
  else g

/-- Takes in that a resource belongs to a scheme, and whether it is a top concept of it. -/
def linkScheme (g : ResourceGraph) (member scheme : Node) (top : Bool) (cause : Relation) :
    ResourceGraph :=
  let schemeId := g.idOf scheme
  let g := g.ensure scheme
  let memberId := g.idOf member
  let g := g.ensure member
  let schemeFits := g.admits schemeId .conceptScheme
  let g := g.request schemeId .conceptScheme cause
  if !schemeFits then g
  else
    let memberFits := !top || g.admits memberId .concept
    let g := if top then g.request memberId .concept cause else g
    if !memberFits then g
    else
      (g.updateLinks memberId fun l =>
        { l with inSchemes := l.inSchemes.insert schemeId }).updateLinks schemeId fun l =>
          { l with
            schemeMembers := l.schemeMembers.insert memberId
            topConcepts := if top then l.topConcepts.insert memberId else l.topConcepts }

/-- Takes in that a resource is a member of a collection. -/
def linkMember (g : ResourceGraph) (collection member : Node) : ResourceGraph :=
  let collectionId := g.idOf collection
  let g := g.ensure collection
  let memberId := g.idOf member
  let g := g.ensure member
  let fits := g.admits collectionId .collection
  let g := g.request collectionId .collection .member
  if !fits then g
  else
    (g.updateLinks collectionId fun l =>
      { l with members := l.members.insert memberId }).updateLinks memberId fun l =>
        { l with inCollections := l.inCollections.insert collectionId }

/-- Takes in where the list of a collection's members starts. The first start given is kept. -/
def linkMemberList (g : ResourceGraph) (collection head : Node) : ResourceGraph :=
  let id := g.idOf collection
  let g := g.ensure collection
  let fits := g.admits id .orderedCollection
  let g := g.request id .orderedCollection .memberList
  if !fits then g
  else
    match (g.linksOf id).memberList with
    | none => g.updateLinks id fun l => { l with memberList := some head }
    | some kept =>
      if kept = head then g else g.report (.memberListConflict collection kept head)

/-- Takes in a value of a list cell (`set_first` and `set_rest`). -/
def linkCell (g : ResourceGraph) (cell : Node) (slot : CellSlot) (value : Node) :
    ResourceGraph :=
  { g with
    cells := g.cells.fill cell slot value
    issues := g.issues ++ (g.cells.fillIssue? cell slot value).toList }

/-! ## Statements -/

/-- Whether the configuration considers a relation at all. -/
def considers (c : Configuration) : Relation → Bool
  | .inScheme | .topConceptOf | .hasTopConcept => c.conceptSchemes
  | .member | .memberList => c.collections
  | _ => true

/-- Takes in a relation between two resources. -/
def relate (g : ResourceGraph) (subject : Node) (relation : Relation) (object : Node) :
    ResourceGraph :=
  if !considers g.configuration relation then g.ignore
  else
    match relation with
    | .type => g.linkType subject object
    | .broader => g.linkHierarchy object subject .broader
    | .narrower => g.linkHierarchy subject object .narrower
    | .inScheme => g.linkScheme subject object false .inScheme
    | .topConceptOf => g.linkScheme subject object true .topConceptOf
    | .hasTopConcept => g.linkScheme object subject true .hasTopConcept
    | .member => g.linkMember subject object
    | .memberList => g.linkMemberList subject object
    | .listFirst => g.linkCell subject .first object
    | .listRest => g.linkCell subject .rest object

/-- Takes in a text of a resource. -/
def describe (g : ResourceGraph) (subject : Node) (property : TextProperty) (l : Literal) :
    ResourceGraph :=
  (g.ensure subject).update (g.idOf subject) fun r =>
    { r with texts := r.texts.record g.configuration.primaryLanguage property l }

/-- Takes in a statement whose object is a resource (`ingest_relation`). Only relations belong
here. -/
def acceptRelation (g : ResourceGraph) (subject : Node) (p : Predicate) (object : Node) :
    Except Defect ResourceGraph :=
  match p with
  | .relation r => .ok (g.relate subject r object)
  | .text _ => .error (.misroutedPredicate p.curie "relation")

/-- Takes in a statement whose object is a text (`ingest_text`). Only text properties belong
here. -/
def acceptText (g : ResourceGraph) (subject : Node) (p : Predicate) (l : Literal) :
    Except Defect ResourceGraph :=
  match p with
  | .text property => .ok (g.describe subject property l)
  | .relation _ => .error (.misroutedPredicate p.curie "text")

/-- Takes in a statement by its predicate. A literal where a resource is required is an issue; a
resource where a text is expected has nothing to show and is ignored, like every predicate not in
the vocabulary. -/
def accept (g : ResourceGraph) (t : Triple) : Except Defect ResourceGraph :=
  let g := { g with counters := { g.counters with triples := g.counters.triples + 1 } }
  match Predicate.ofIri? t.predicate with
  | none => .ok g.ignore
  | some p =>
    match t.object, p.expectsResource with
    | .node object, true => g.acceptRelation t.subject p object
    | .literal l, false => g.acceptText t.subject p l
    | .literal l, true => .ok (g.report (.literalAsResource t.subject p l.value))
    | .node _, false => .ok g.ignore

/-- Takes in a statement, unless the graph is finished. -/
def ingest (g : ResourceGraph) (t : Triple) : Except Defect ResourceGraph :=
  if g.frozen then .error .frozen else g.accept t

/-- Takes in statements in order, unless the graph is finished. -/
def ingestAll (g : ResourceGraph) : List Triple → Except Defect ResourceGraph
  | [] => .ok g
  | t :: rest =>
    match g.ingest t with
    | .error d => .error d
    | .ok g => g.ingestAll rest

end ResourceGraph

end Thesaurus
