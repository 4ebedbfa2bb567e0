/-!
# RDF terms (design §6)

- `Node`: an IRI or a blank node.
- `Literal`: a text with an optional language tag.
- `Object`: either of these.
- `Triple`: one statement.
-/

namespace Thesaurus

namespace Rdf

/-- The predicate that gives a resource its class. -/
def typeIri : String := "http://www.w3.org/1999/02/22-rdf-syntax-ns#type"

/-- The predicate that gives a list cell its element. -/
def firstIri : String := "http://www.w3.org/1999/02/22-rdf-syntax-ns#first"

/-- The predicate that gives a list cell the next. -/
def restIri : String := "http://www.w3.org/1999/02/22-rdf-syntax-ns#rest"

/-- The end of every list. -/
def nilIri : String := "http://www.w3.org/1999/02/22-rdf-syntax-ns#nil"

/-- The type of texts with a language tag. No text without a tag can have it. -/
def langStringIri : String := "http://www.w3.org/1999/02/22-rdf-syntax-ns#langString"

/-- What identifies a resource (§3): an IRI, or a blank node, whose label only one document
knows. -/
inductive Node where
  | iri (value : String)
  | blank (label : String)
deriving DecidableEq, Inhabited, Repr

namespace Node

/-- Whether the node is the list terminator. -/
def isNil : Node → Bool
  | iri value => value == nilIri
  | blank _ => false

/-- The node as text. An IRI that starts with `_:` looks like a blank node. -/
def text : Node → String
  | iri value => value
  | blank label => "_:" ++ label

end Node

/-- A text with an optional language tag. An empty tag is still a tag. -/
structure Literal where
  value : String
  language : Option String := none
deriving DecidableEq, Inhabited, Repr

namespace Literal

/-- The literal in quotes, followed by its tag. -/
def text (l : Literal) : String :=
  match l.language with
  | some tag => "\"" ++ l.value ++ "\"@" ++ tag
  | none => "\"" ++ l.value ++ "\""

end Literal

/-- What a statement says of its subject (§6): another node, or a text. -/
inductive Object where
  | node (node : Node)
  | literal (literal : Literal)
deriving DecidableEq, Inhabited, Repr

namespace Object

/-- The object as text. -/
def text : Object → String
  | node n => n.text
  | literal l => l.text

/-- Whether the object is the list terminator. -/
def isNil : Object → Bool
  | node n => n.isNil
  | literal _ => false

end Object

/-- One statement of the input (§6), with the IRI of its predicate. -/
structure Triple where
  subject : Node
  predicate : String
  object : Object
deriving DecidableEq, Inhabited, Repr

end Rdf

end Thesaurus
