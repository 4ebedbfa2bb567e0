import Thesaurus.Rdf.Term

/-!
# Vocabulary (design §6)

The predicates a thesaurus is read from.

- `Relation`: predicates between resources.
- `TextProperty`: predicates that give a resource a text.
- `Predicate`: either of these, with `Predicate.ofIri?` and the short name `Predicate.curie`.
-/

namespace Thesaurus

namespace Rdf

/-- The predicates of the vocabulary (§6) between two resources. The object of `type` is a class;
the object of `broader` is the broader concept, and the object of `narrower` the narrower one. A
subject is in a scheme or a top concept of one by `inScheme` and `topConceptOf`, and has a top
concept, a member or a list of members by `hasTopConcept`, `member` and `memberList`. List cells
have an element and a next cell. -/
inductive Relation where
  | type
  | broader
  | narrower
  | inScheme
  | topConceptOf
  | hasTopConcept
  | member
  | memberList
  | listFirst
  | listRest
deriving DecidableEq, Inhabited, Repr

/-- The predicates of the vocabulary (§6) whose objects are texts. -/
inductive TextProperty where
  | prefLabel
  | altLabel
  | notationText
  | definition
  | title
  | description
  | label
deriving DecidableEq, Inhabited, Repr

/-- A predicate of the recognized vocabulary (§6): a relation or a text property. -/
inductive Predicate where
  | relation (relation : Relation)
  | text (property : TextProperty)
deriving DecidableEq, Inhabited, Repr

/-- The short name of a relation, as messages show it. -/
def Relation.curie : Relation → String
  | .type => "rdf:type"
  | .broader => "skos:broader"
  | .narrower => "skos:narrower"
  | .inScheme => "skos:inScheme"
  | .topConceptOf => "skos:topConceptOf"
  | .hasTopConcept => "skos:hasTopConcept"
  | .member => "skos:member"
  | .memberList => "skos:memberList"
  | .listFirst => "rdf:first"
  | .listRest => "rdf:rest"

/-- The short name of a text property. -/
def TextProperty.curie : TextProperty → String
  | .prefLabel => "skos:prefLabel"
  | .altLabel => "skos:altLabel"
  | .notationText => "skos:notation"
  | .definition => "skos:definition"
  | .title => "dcterms:title"
  | .description => "dcterms:description"
  | .label => "rdfs:label"

namespace Predicate

/-- The short name of a predicate. -/
def curie : Predicate → String
  | relation r => r.curie
  | text p => p.curie

/-- Whether the object has to be a resource. -/
def expectsResource : Predicate → Bool
  | relation _ => true
  | text _ => false

/-- The predicates by IRI. Titles and descriptions each have two. -/
def vocabulary : List (String × Predicate) := [
  (typeIri, relation .type),
  ("http://www.w3.org/2004/02/skos/core#prefLabel", text .prefLabel),
  ("http://www.w3.org/2004/02/skos/core#altLabel", text .altLabel),
  ("http://www.w3.org/2004/02/skos/core#notation", text .notationText),
  ("http://www.w3.org/2004/02/skos/core#definition", text .definition),
  ("http://www.w3.org/2004/02/skos/core#broader", relation .broader),
  ("http://www.w3.org/2004/02/skos/core#narrower", relation .narrower),
  ("http://www.w3.org/2004/02/skos/core#inScheme", relation .inScheme),
  ("http://www.w3.org/2004/02/skos/core#topConceptOf", relation .topConceptOf),
  ("http://www.w3.org/2004/02/skos/core#hasTopConcept", relation .hasTopConcept),
  ("http://www.w3.org/2004/02/skos/core#member", relation .member),
  ("http://www.w3.org/2004/02/skos/core#memberList", relation .memberList),
  (firstIri, relation .listFirst),
  (restIri, relation .listRest),
  ("http://purl.org/dc/terms/title", text .title),
  ("http://purl.org/dc/elements/1.1/title", text .title),
  ("http://purl.org/dc/terms/description", text .description),
  ("http://purl.org/dc/elements/1.1/description", text .description),
  ("http://www.w3.org/2000/01/rdf-schema#label", text .label)]

/-- The predicate with the given IRI, if it is one of the vocabulary (§6). -/
def ofIri? (iri : String) : Option Predicate :=
  vocabulary.lookup iri

end Predicate

end Rdf

end Thesaurus
