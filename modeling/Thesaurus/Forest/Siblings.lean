import Thesaurus.Forest.Basic
import Thesaurus.Order
import Thesaurus.Resource.Basic
import Thesaurus.Text.LowerCase

/-!
# The order of siblings (design §4.4)

- `SiblingKey`: what the order of siblings depends on, and `SiblingKey.compare`.
- `SiblingKey.ofEntry`, `SiblingKey.ofResource`: the keys of nodes and of resources to be placed.
- `sortSiblings`: siblings in order, without repetitions.
-/

namespace Thesaurus

/-- The place of a kind among siblings: schemes, then collections, then concepts. -/
def Kind.category : Kind → Nat
  | conceptScheme => 0
  | collection | orderedCollection => 1
  | concept => 2
  | unknown => 3

/-- The composite key of siblings (§4.4): the declared position, the category of the kind, whether
it is a declared top concept, the display label in lower case, the IRI, and whether it is a
reference. -/
structure SiblingKey where
  position : Option Nat
  category : Nat
  top : Bool
  label : Option String
  iri : String
  reference : Bool
deriving DecidableEq, Repr

namespace SiblingKey

/-- Compares siblings by position, then kind, then label, then IRI. Positioned siblings, top
concepts, labelled siblings and owned ones come first. -/
def compare (a b : SiblingKey) : Ordering :=
  (absentLast Ord.compare a.position b.position).then <|
    (Ord.compare a.category b.category).then <|
      (Ord.compare b.top a.top).then <|
        (absentLast Ord.compare a.label b.label).then <|
          (Ord.compare a.iri b.iri).then <| Ord.compare a.reference b.reference

/-- The key of a sibling that shows `view`. -/
def ofView (view : View) (position : Option Nat) (top reference : Bool) : SiblingKey where
  position := position
  category := view.kind.category
  top := top
  label := view.displayLabel.map Text.lowerCase
  iri := view.iri
  reference := reference

/-- The key of a node (`of_node`). -/
def ofEntry (e : Entry) : SiblingKey :=
  ofView e.view e.position e.topConcept e.reference

/-- The key of a resource that is still to be placed. -/
def ofResource (r : Resource) (position : Option Nat) (top : Bool) : SiblingKey :=
  ofView r.view position top false

end SiblingKey

/-- The key of a tree among its siblings: that of its root. -/
def siblingKey (t : Tree Entry) : SiblingKey :=
  SiblingKey.ofEntry t.value

/-- Siblings in order, with only the first of those that have the same key. -/
def sortSiblings (siblings : List (Tree Entry)) : List (Tree Entry) :=
  dropRepeats siblingKey (sortOn siblingKey SiblingKey.compare siblings)

end Thesaurus
