/-!
# Kinds of resources (design §3)

- `Kind`: what a resource is known to be.
- `Kind.transition`: what a request for a kind does to the present one.
- `Kind.ofClass?`: the kind that a class IRI stands for.
-/

namespace Thesaurus

/-- The kinds of resources, or states of a type (§3). Of an `unknown` resource nothing was said
yet. -/
inductive Kind where
  | unknown
  | concept
  | conceptScheme
  | collection
  | orderedCollection
deriving DecidableEq, Inhabited, Repr

/-- What a request for a kind does (`transition`): the kind fits already, the resource gets another
one, or the request contradicts its kind. -/
inductive Transition where
  | keep
  | set (kind : Kind)
  | conflict
deriving DecidableEq, Repr

namespace Kind

/-- Whether anything is known. -/
def isKnown (k : Kind) : Bool :=
  k != unknown

/-- Whether the kind is one of the two kinds of collection. -/
def isCollection : Kind → Bool
  | collection | orderedCollection => true
  | _ => false

/-- The name of the kind in messages. -/
def name : Kind → String
  | unknown => "unknown"
  | concept => "Concept"
  | conceptScheme => "ConceptScheme"
  | collection => "Collection"
  | orderedCollection => "OrderedCollection"

/-- What a request for the kind `requested` does to a resource of kind `current`. An unknown
resource becomes what is asked, and a collection may become ordered; an ordered collection is also a
collection. -/
def transition (current requested : Kind) : Transition :=
  match current, requested with
  | _, unknown => .keep
  | unknown, k => .set k
  | collection, orderedCollection => .set orderedCollection
  | orderedCollection, collection => .keep
  | k, l => if k = l then .keep else .conflict

/-- The kind after a request, whatever the request did. -/
def after (current requested : Kind) : Kind :=
  match current.transition requested with
  | .set k => k
  | _ => current

/-- The classes that give their instances a kind. -/
def classes : List (String × Kind) := [
  ("http://www.w3.org/2004/02/skos/core#Concept", concept),
  ("http://www.w3.org/2004/02/skos/core#ConceptScheme", conceptScheme),
  ("http://www.w3.org/2004/02/skos/core#Collection", collection),
  ("http://www.w3.org/2004/02/skos/core#OrderedCollection", orderedCollection)]

/-- The kind of the instances of a class. -/
def ofClass? (iri : String) : Option Kind :=
  classes.lookup iri

end Kind

end Thesaurus
