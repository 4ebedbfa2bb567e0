import Thesaurus.Resource.View
import Thesaurus.Tree

/-!
# Forests (design §3, §6)

A forest shows each resource as an *owned* node in one place, and as a *reference* without children
wherever else it belongs.

- `Entry`: what a node of a forest shows.
- `Forest`: the trees, in order.
- `Forest.nodes`: all nodes in pre-order, from which counts and look-ups are made.
- `Forest.forEach`: visits to all nodes, in which a state is changed.
-/

namespace Thesaurus

/-- What a node of a forest shows (§6). A `reference` only points to the place where the resource is
owned. A top concept is one of the scheme in which it is shown. Siblings may be in the order of
their notations, or have a rank by them, and in an ordered collection they have positions. -/
structure Entry where
  view : View
  reference : Bool := false
  topConcept : Bool := false
  sortByNotation : Bool := false
  position : Option Nat := none
  notationRank : Option Nat := none
deriving DecidableEq, Inhabited, Repr

/-- The IRI of the resource. -/
def Entry.iri (e : Entry) : String :=
  e.view.iri

/-- Trees, in order. -/
abbrev Forest := List (Tree Entry)

namespace Forest

/-- All nodes in pre-order, each with what is below it. -/
def nodes (f : Forest) : List (Tree Entry) :=
  Tree.walk f

/-- The state after visits to all nodes, one root after the other. -/
def forEach {σ : Type} (visitor : σ → Tree Entry → σ) (state : σ) (f : Forest) : σ :=
  f.foldl (Tree.visit visitor) state

/-- The number of nodes. -/
def nodeCount (f : Forest) : Nat :=
  f.nodes.length

/-- The number of references. -/
def referenceCount (f : Forest) : Nat :=
  f.nodes.countP (·.value.reference)

/-- The IRIs of the owned nodes in pre-order. -/
def ownedIris (f : Forest) : List String :=
  (f.nodes.filter (!·.value.reference)).map (·.value.iri)

/-- How many owned nodes show the given IRI. -/
def ownedCount (f : Forest) (iri : String) : Nat :=
  f.ownedIris.count iri

/-- Each IRI of an owned node with the number of such nodes. -/
def ownedOccurrences (f : Forest) : List (String × Nat) :=
  f.ownedIris.eraseDups.map fun iri => (iri, f.ownedCount iri)

/-- The first owned node in pre-order that shows the given IRI. -/
def find? (f : Forest) (iri : String) : Option (Tree Entry) :=
  f.nodes.find? fun t => !t.value.reference && t.value.iri == iri

/-- The IRIs of the roots, in order. -/
def rootIris (f : Forest) : List String :=
  f.map (·.value.iri)

end Forest

end Thesaurus
