import Thesaurus.Rdf.Term
import Thesaurus.Rdf.Vocabulary
import Thesaurus.Resource.Kind

/-!
# What is shown of a resource (design §4.1)

- `Texts`: the texts a resource has been given, one for each property.
- `offer`: the rule by which a label gives way to a later one.
- `Texts.record`: takes up a literal given for a property.
- `View`: everything a tree shows of a resource, with `View.displayLabel`.
-/

namespace Thesaurus

open Rdf (Literal TextProperty)

/-- Equality of texts up to the case of ASCII letters. -/
def sameIgnoringCase (s t : String) : Bool :=
  s.toList.map Char.toLower == t.toList.map Char.toLower

/-- Whether a literal is tagged with the primary language. -/
def isPrimary (primary : String) (l : Literal) : Bool :=
  l.language.any (sameIgnoringCase · primary)

/-- Whether the label `candidate` takes the place of `current`. An untagged label gives way to
untagged ones only, and a label in the primary language gives way to untagged ones and to others in
the primary language. -/
def yields (primary : String) (current candidate : Literal) : Bool :=
  if current.language.isNone then candidate.language.isNone
  else if candidate.language.isNone then true
  else if isPrimary primary current then isPrimary primary candidate
  else true

/-- Whether a slot, which may be empty, takes the label `candidate`. -/
def accepts (primary : String) (slot : Option Literal) (candidate : Literal) : Bool :=
  slot.all (yields primary · candidate)

/-- The slot after the label `candidate` was offered to it (`offer_localized`). -/
def offer (primary : String) (slot : Option Literal) (candidate : Literal) : Option Literal :=
  if accepts primary slot candidate then some candidate else slot

/-- The text fields of a resource (§3). -/
structure Texts where
  prefLabel : Option Literal := none
  altLabel : Option Literal := none
  title : Option Literal := none
  rdfsLabel : Option Literal := none
  notationText : Option String := none
  definition : Option Literal := none
  description : Option Literal := none
deriving DecidableEq, Inhabited, Repr

namespace Texts

/-- Takes up a literal given for a property. Labels, titles and descriptions follow the rule of
`offer`; of notations and definitions the last one counts. -/
def record (primary : String) (property : TextProperty) (l : Literal) (t : Texts) : Texts :=
  match property with
  | .prefLabel => { t with prefLabel := offer primary t.prefLabel l }
  | .altLabel => { t with altLabel := offer primary t.altLabel l }
  | .title => { t with title := offer primary t.title l }
  | .label => { t with rdfsLabel := offer primary t.rdfsLabel l }
  | .description => { t with description := offer primary t.description l }
  | .notationText => { t with notationText := some l.value }
  | .definition => { t with definition := some l }

/-- The label by which a resource is ordered: the first there is of the preferred label, the
alternative label, the title and the general label. -/
def displayLabel (t : Texts) : Option String :=
  (((t.prefLabel.or t.altLabel).or t.title).or t.rdfsLabel).map (·.value)

end Texts

/-- Everything a tree shows of a resource (§6): its texts, its IRI or the text of a blank node, the
URL form where it was asked for and differs, and its kind. -/
structure View extends Texts where
  iri : String
  url : Option String := none
  kind : Kind
deriving DecidableEq, Inhabited, Repr

end Thesaurus
