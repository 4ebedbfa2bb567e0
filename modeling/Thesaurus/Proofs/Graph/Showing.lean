import Thesaurus.Proofs.Graph.Configured
import Thesaurus.Proofs.Graph.Members

/-!
# Statements about neither schemes nor collections

Whether schemes and collections are shown makes no difference while statements come in that are
about neither.

- `isGrouping`: whether a statement is about schemes or collections.
- `isGrouping_of_relation`, `isGrouping_of_class`: only such statements depend on what is shown.
- `ResourceGraph.showing`: the graph under a configuration that shows them or not.
- `ResourceGraph.takesAlike_showing`, `ResourceGraph.ingestAll_showing`: other statements are taken
  in alike.
-/

namespace Thesaurus

open Rdf (Predicate Relation Triple)

/-! ## Statements about schemes and collections -/

/-- The predicates that relate resources to schemes and collections. -/
def groupingPredicates : List String := [
  "http://www.w3.org/2004/02/skos/core#inScheme",
  "http://www.w3.org/2004/02/skos/core#topConceptOf",
  "http://www.w3.org/2004/02/skos/core#hasTopConcept",
  "http://www.w3.org/2004/02/skos/core#member",
  "http://www.w3.org/2004/02/skos/core#memberList"]

/-- The classes of schemes and collections. -/
def groupingClasses : List String := [
  "http://www.w3.org/2004/02/skos/core#ConceptScheme",
  "http://www.w3.org/2004/02/skos/core#Collection",
  "http://www.w3.org/2004/02/skos/core#OrderedCollection"]

/-- Whether a statement is about schemes or collections. -/
def isGrouping (t : Triple) : Prop :=
  t.predicate ∈ groupingPredicates ∨
    t.predicate = Rdf.typeIri ∧ ∃ c ∈ groupingClasses, t.object = .node (.iri c)

instance (t : Triple) : Decidable (isGrouping t) :=
  inferInstanceAs (Decidable (_ ∨ _ ∧ ∃ c ∈ groupingClasses, t.object = .node (.iri c)))

/-- Whether a relation is one to schemes or collections. -/
def Rdf.Relation.isGrouping : Relation → Bool
  | .inScheme | .topConceptOf | .hasTopConcept | .member | .memberList => true
  | _ => false

/-- Statements with such a relation are about schemes or collections. -/
theorem isGrouping_of_relation {t : Triple} {r : Relation}
    (hpredicate : Predicate.ofIri? t.predicate = some (.relation r))
    (hr : r.isGrouping = true) : isGrouping t := by
  have hlisted : (t.predicate, Predicate.relation r) ∈ Predicate.vocabulary :=
    mem_of_lookup hpredicate
  refine .inl ?_
  cases r <;> cases hr <;> simp_all [Predicate.vocabulary, groupingPredicates]

/-- So are statements that make something a scheme or a collection. -/
theorem isGrouping_of_class {t : Triple} {iri : String} {kind : Kind}
    (hpredicate : Predicate.ofIri? t.predicate = some (.relation .type))
    (hobject : t.object = .node (.iri iri)) (hkind : Kind.ofClass? iri = some kind)
    (hother : kind ≠ .concept) : isGrouping t := by
  have hlisted : (t.predicate, Predicate.relation .type) ∈ Predicate.vocabulary :=
    mem_of_lookup hpredicate
  have hclass : (iri, kind) ∈ Kind.classes := mem_of_lookup hkind
  refine .inr ⟨by simpa [Predicate.vocabulary] using hlisted, iri, ?_, hobject⟩
  simp only [Kind.classes, List.mem_cons, Prod.mk.injEq, List.not_mem_nil, or_false] at hclass
  rcases hclass with ⟨_, rfl⟩ | hclass
  · exact absurd rfl hother
  · simp only [groupingClasses, List.mem_cons, List.not_mem_nil, or_false]
    exact hclass.imp (·.1) (Or.imp (·.1) (·.1))

/-! ## Other configurations -/

/-- The configuration that shows schemes, and collections, or not. -/
def Configuration.showing (c : Configuration) (schemes collections : Bool) : Configuration :=
  { c with conceptSchemes := schemes, collections := collections }

namespace ResourceGraph

/-- The graph under a configuration that shows schemes, and collections, or not. -/
def showing (g : ResourceGraph) (schemes collections : Bool) : ResourceGraph :=
  { g with configuration := g.configuration.showing schemes collections }

variable {g g' : ResourceGraph} {schemes collections : Bool} {t : Triple}

/-- About other statements it makes no difference whether schemes and collections are shown. -/
theorem takesAlike_showing {c : Configuration} (hother : ¬ isGrouping t) :
    TakesAlike (c.showing schemes collections) c t where
  urls := rfl
  language := rfl
  relation := fun r hpredicate => by
    have hungrouped : r.isGrouping = false :=
      Bool.eq_false_iff.2 fun hgrouping => hother (isGrouping_of_relation hpredicate hgrouping)
    cases r <;> first | rfl | cases hungrouped
  class_ := fun hpredicate n hobject => by
    -- the class is none of those that only some configurations consider
    cases n with
    | blank label => rfl
    | iri iri =>
      cases hclass : Kind.ofClass? iri with
      | none => simp only [classKind?, hclass]
      | some kind =>
        by_cases hconcept : kind = .concept
        · simp only [classKind?, hclass, hconcept]
        · exact absurd (isGrouping_of_class hpredicate hobject hclass hconcept) hother

/-- Statements about neither schemes nor collections are taken in alike. -/
theorem ingestAll_showing {triples : List Triple} (hother : ∀ t ∈ triples, ¬ isGrouping t)
    (htaken : g.ingestAll triples = .ok g') :
    (g.showing schemes collections).ingestAll triples = .ok (g'.showing schemes collections) := by
  have hconfiguration : g'.configuration = g.configuration := configuration_of_ingestAll htaken
  have halike := ingestAll_configured (c := g.configuration.showing schemes collections)
    fun t ht => takesAlike_showing (hother t ht)
  rw [htaken, ← hconfiguration] at halike
  rw [showing, ← hconfiguration]
  exact halike

end ResourceGraph

end Thesaurus
