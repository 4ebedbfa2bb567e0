import Mathlib.Data.List.Forall2
import Thesaurus.Proofs.Graph.Finish

/-!
# Inverse relations

To be broader and to be narrower are inverse relations, and so are to be and to have a top concept.
It does not matter which of the two a statement uses: both lead to the same graph, and in the issues
only the relation that is named as the cause of a type conflict can differ.

- `Restated`: whether two statements say the same.
- `Issue.Reworded`: whether two issues differ in the relation they name at most.
- `ResourceGraph.Rewords`: whether two graphs differ in the words of issues only.
- `ResourceGraph.Rewords.relate_inverse`: inverse relations link alike.
- `ResourceGraph.Rewords.ingestAll`: restated statements are taken in alike.
- `ResourceGraph.Rewords.completed`: then the graphs are finished alike.
-/

namespace Thesaurus

open Rdf (Literal Node Predicate TextProperty Triple)

/-! ## Statements that say the same -/

/-- Whether one relation holds between two nodes just where the other holds with them exchanged. -/
inductive Rdf.Relation.Inverse : Rdf.Relation → Rdf.Relation → Prop where
  | broader : Inverse .broader .narrower
  | narrower : Inverse .narrower .broader
  | topConceptOf : Inverse .topConceptOf .hasTopConcept
  | hasTopConcept : Inverse .hasTopConcept .topConceptOf

/-- Whether two relations are the same or inverse. -/
def Rdf.Relation.SameOrInverse (r r' : Rdf.Relation) : Prop :=
  r = r' ∨ r.Inverse r'

theorem Rdf.Relation.SameOrInverse.refl (r : Rdf.Relation) : r.SameOrInverse r :=
  .inl rfl

theorem Rdf.Relation.Inverse.sameOrInverse {r r' : Rdf.Relation} (h : r.Inverse r') :
    r.SameOrInverse r' :=
  .inr h

/-- Whether two statements say the same: they are one statement, or relate the same nodes by inverse
relations. -/
inductive Restated : Triple → Triple → Prop where
  | same (t : Triple) : Restated t t
  | inverse {a b : Node} {p p' : String} {r r' : Rdf.Relation} (inverse : r.Inverse r')
      (predicate : Predicate.ofIri? p = some (.relation r))
      (predicate' : Predicate.ofIri? p' = some (.relation r')) :
      Restated ⟨a, p, .node b⟩ ⟨b, p', .node a⟩

/-! ## Issues in other words -/

/-- Whether two issues differ at most in the relation that caused a type conflict, and then only in
its direction. -/
inductive Issue.Reworded : Issue → Issue → Prop where
  | same (i : Issue) : Reworded i i
  | inverse {n : Node} {current requested : Kind} {r r' : Rdf.Relation} (inverse : r.Inverse r') :
      Reworded (.typeConflict n current requested r) (.typeConflict n current requested r')

/-- Whether two issues as they are shown differ at most in the name of a relation in the message of
a type conflict. -/
inductive Diagnostic.Reworded : Diagnostic → Diagnostic → Prop where
  | same (d : Diagnostic) : Reworded d d
  | inverse {r r' : Rdf.Relation} (inverse : r.Inverse r') (before after : String) :
      Reworded ⟨.typeConflict, before ++ r.curie ++ after⟩
        ⟨.typeConflict, before ++ r'.curie ++ after⟩

theorem Issue.Reworded.typeConflict {n : Node} {current requested : Kind} {r r' : Rdf.Relation}
    (hcause : r.SameOrInverse r') :
    Reworded (.typeConflict n current requested r) (.typeConflict n current requested r') := by
  rcases hcause with rfl | hinverse
  · exact .same _
  · exact .inverse hinverse

/-- Reworded issues are shown with the same text but for the name of a relation. -/
theorem Issue.Reworded.diagnostic {i i' : Issue} (h : Reworded i i') :
    Diagnostic.Reworded i.diagnostic i'.diagnostic := by
  cases h with
  | same => exact .same _
  | inverse hinverse => exact .inverse hinverse _ _

/-- Issues that are reworded one by one are shown as such. -/
theorem diagnostics_of_reworded {issues issues' : List Issue}
    (h : List.Forall₂ Issue.Reworded issues issues') :
    List.Forall₂ Diagnostic.Reworded (issues.map (·.diagnostic)) (issues'.map (·.diagnostic)) := by
  rw [List.forall₂_map_left_iff, List.forall₂_map_right_iff]
  exact h.imp fun _ _ hreworded => hreworded.diagnostic

/-- The same issues can be found after reworded ones. -/
theorem reworded_append {issues issues' : List Issue}
    (h : List.Forall₂ Issue.Reworded issues issues') (found : List Issue) :
    List.Forall₂ Issue.Reworded (issues ++ found) (issues' ++ found) :=
  List.rel_append h (List.forall₂_same.2 fun i _ => .same i)

namespace ResourceGraph

/-- The graph with other issues. -/
def noting (g : ResourceGraph) (issues : List Issue) : ResourceGraph :=
  { g with issues := issues }

/-- Whether two graphs differ in the words of issues only. -/
structure Rewords (g g' : ResourceGraph) : Prop where
  same : g' = g.noting g'.issues
  issues : List.Forall₂ Issue.Reworded g.issues g'.issues

namespace Rewords

variable {g g' : ResourceGraph} {m n : Node} {id : ResourceId} {requested : Kind}
  {cause cause' : Rdf.Relation}

theorem refl (g : ResourceGraph) : Rewords g g :=
  ⟨rfl, List.forall₂_same.2 fun i _ => .same i⟩

/-! ## What is read of the graphs -/

theorem configuration (h : Rewords g g') : g'.configuration = g.configuration :=
  congrArg (·.configuration) h.same

theorem resources (h : Rewords g g') : g'.resources = g.resources :=
  congrArg (·.resources) h.same

theorem index (h : Rewords g g') : g'.index = g.index :=
  congrArg (·.index) h.same

theorem frozen (h : Rewords g g') : g'.frozen = g.frozen :=
  congrArg (·.frozen) h.same

theorem idOf (h : Rewords g g') : g'.idOf n = g.idOf n := by
  unfold ResourceGraph.idOf lookup size
  rw [h.index, h.resources]

theorem admits (h : Rewords g g') : g'.admits id requested = g.admits id requested := by
  rw [ResourceGraph.admits, ResourceGraph.admits, kindOf_congr h.resources]

theorem linksOf (h : Rewords g g') : g'.linksOf = g.linksOf :=
  linksOf_congr h.resources

/-! ## Small changes -/

/-- A change that looks at no issues, and adds the same to them, cannot tell the graphs apart. -/
theorem finding {found : List Issue} (h : Rewords g g') (change : ResourceGraph → ResourceGraph)
    (hissues : (change g).issues = g.issues ++ found)
    (hsame : ∀ issues, change (g.noting issues) = (change g).noting (issues ++ found)) :
    Rewords (change g) (change g') := by
  have hchanged : change g' = (change g).noting (g'.issues ++ found) := by
    rw [h.same]
    exact hsame _
  rw [hchanged]
  refine ⟨rfl, ?_⟩
  rw [hissues]
  exact reworded_append h.issues found

/-- The same holds of a change that adds no issues. -/
theorem changing (h : Rewords g g') (change : ResourceGraph → ResourceGraph)
    (hissues : (change g).issues = g.issues)
    (hsame : ∀ issues, change (g.noting issues) = (change g).noting issues) :
    Rewords (change g) (change g') := by
  have hnoIssues : (change g).issues = g.issues ++ [] := by rw [hissues, List.append_nil]
  refine h.finding change hnoIssues fun issues => ?_
  rw [hsame, List.append_nil]

theorem update (h : Rewords g g') (id : ResourceId) (change : Resource → Resource) :
    Rewords (g.update id change) (g'.update id change) :=
  h.changing (·.update id change) rfl fun _ => rfl

theorem updateLinks (h : Rewords g g') (id : ResourceId) (change : Links → Links) :
    Rewords (g.updateLinks id change) (g'.updateLinks id change) :=
  h.update id _

theorem ignore (h : Rewords g g') : Rewords g.ignore g'.ignore :=
  h.changing (·.ignore) rfl fun _ => rfl

theorem counted (h : Rewords g g') : Rewords g.counted g'.counted :=
  h.changing (·.counted) rfl fun _ => rfl

theorem ensure (h : Rewords g g') (n : Node) : Rewords (g.ensure n) (g'.ensure n) := by
  refine h.changing (·.ensure n) ?_ fun issues => ?_
  · rw [ResourceGraph.ensure]
    split <;> rfl
  · have hfound : (g.noting issues).lookup n = g.lookup n := rfl
    rw [ResourceGraph.ensure, ResourceGraph.ensure, hfound]
    split <;> rfl

/-- Two issues in different words may be recorded. -/
theorem report {i i' : Issue} (h : Rewords g g') (hreworded : i.Reworded i') :
    Rewords (g.report i) (g'.report i') where
  same := by
    rw [h.same]
    rfl
  issues := List.rel_append h.issues (.cons hreworded .nil)

/-- A resource is asked to be of a kind because of one relation or its inverse. -/
theorem request (h : Rewords g g') (hcause : cause.SameOrInverse cause')
    (id : ResourceId) (requested : Kind) :
    Rewords (g.request id requested cause) (g'.request id requested cause') := by
  unfold ResourceGraph.request
  rw [h.resources]
  cases g.resources[id]? with
  | none => exact h
  | some r =>
    dsimp only
    cases r.kind.transition requested with
    | keep => exact h
    | set kind => exact h.update _ _
    | conflict => exact h.report (.typeConflict hcause)

theorem ite {g₁ g₁' : ResourceGraph} {p : Prop} [Decidable p] (h : Rewords g g')
    (h₁ : Rewords g₁ g₁') : Rewords (if p then g else g₁) (if p then g' else g₁') := by
  split
  · exact h
  · exact h₁

/-! ## Links -/

theorem linkType (h : Rewords g g') : Rewords (g.linkType m n) (g'.linkType m n) := by
  unfold ResourceGraph.linkType
  rw [h.configuration, h.idOf]
  cases classKind? g.configuration n with
  | none => exact h.ignore
  | some kind => exact (h.ensure m).request (.refl .type) _ _

theorem linkHierarchy (h : Rewords g g') (hcause : cause.SameOrInverse cause') :
    Rewords (g.linkHierarchy m n cause) (g'.linkHierarchy m n cause') := by
  have hfirst := h.ensure m
  have hboth := hfirst.ensure n
  have hasked := hboth.request hcause (g.idOf m) .concept
  have haskedBoth := hasked.request hcause ((g.ensure m).idOf n) .concept
  unfold ResourceGraph.linkHierarchy
  simp only [h.idOf, hfirst.idOf, hboth.admits, hasked.admits]
  exact ((haskedBoth.updateLinks _ _).updateLinks _ _).ite haskedBoth

theorem linkScheme {top : Bool} (h : Rewords g g')
    (hcause : cause.SameOrInverse cause') :
    Rewords (g.linkScheme m n top cause) (g'.linkScheme m n top cause') := by
  have hfirst := h.ensure n
  have hboth := hfirst.ensure m
  have hasked := hboth.request hcause (g.idOf n) .conceptScheme
  have haskedBoth := hasked.request hcause ((g.ensure n).idOf m) .concept
  -- only a top concept is asked to be a concept
  have hasTop := haskedBoth.ite (p := top = true) hasked
  unfold ResourceGraph.linkScheme
  simp only [h.idOf, hfirst.idOf, hboth.admits, hasked.admits]
  exact hasked.ite (hasTop.ite ((hasTop.updateLinks _ _).updateLinks _ _))

theorem linkMember (h : Rewords g g') : Rewords (g.linkMember m n) (g'.linkMember m n) := by
  have hfirst := h.ensure m
  have hboth := hfirst.ensure n
  have hasked := hboth.request (.refl .member) (g.idOf m) .collection
  unfold ResourceGraph.linkMember
  simp only [h.idOf, hfirst.idOf, hboth.admits]
  exact hasked.ite ((hasked.updateLinks _ _).updateLinks _ _)

theorem linkMemberList (h : Rewords g g') :
    Rewords (g.linkMemberList m n) (g'.linkMemberList m n) := by
  have hfirst := h.ensure m
  have hasked := hfirst.request (.refl .memberList) (g.idOf m) .orderedCollection
  unfold ResourceGraph.linkMemberList
  simp only [h.idOf, hfirst.admits, hasked.linksOf]
  refine hasked.ite ?_
  split
  · exact hasked.updateLinks _ _
  · exact hasked.ite (hasked.report (.same _))

theorem linkCell (h : Rewords g g') (slot : CellSlot) :
    Rewords (g.linkCell m slot n) (g'.linkCell m slot n) :=
  h.finding (·.linkCell m slot n) rfl fun _ => rfl

/-! ## Statements -/

theorem relate (h : Rewords g g') (r : Rdf.Relation) :
    Rewords (g.relate m r n) (g'.relate m r n) := by
  unfold ResourceGraph.relate
  rw [h.configuration]
  split
  · exact h.ignore
  · cases r with
    | type => exact h.linkType
    | broader => exact h.linkHierarchy (.refl .broader)
    | narrower => exact h.linkHierarchy (.refl .narrower)
    | inScheme => exact h.linkScheme (.refl .inScheme)
    | topConceptOf => exact h.linkScheme (.refl .topConceptOf)
    | hasTopConcept => exact h.linkScheme (.refl .hasTopConcept)
    | member => exact h.linkMember
    | memberList => exact h.linkMemberList
    | listFirst => exact h.linkCell .first
    | listRest => exact h.linkCell .rest

/-- Inverse relations are considered under the same configurations, and link the same nodes in the
same order. -/
theorem relate_inverse {r r' : Rdf.Relation} (h : Rewords g g') (hinverse : r.Inverse r') :
    Rewords (g.relate m r n) (g'.relate n r' m) := by
  have hconsidered : considers g.configuration r' = considers g.configuration r := by
    cases hinverse <;> rfl
  have hcauses := hinverse.sameOrInverse
  unfold ResourceGraph.relate
  rw [h.configuration, hconsidered]
  split
  · exact h.ignore
  · cases hinverse with
    | broader => exact h.linkHierarchy hcauses
    | narrower => exact h.linkHierarchy hcauses
    | topConceptOf => exact h.linkScheme hcauses
    | hasTopConcept => exact h.linkScheme hcauses

theorem describe (h : Rewords g g') (property : TextProperty) (l : Literal) :
    Rewords (g.describe n property l) (g'.describe n property l) := by
  unfold ResourceGraph.describe
  rw [h.idOf, h.configuration]
  exact (h.ensure n).update _ _

/-- One graph accepts a statement as the other accepts the same statement in other words. -/
theorem accept {t t' : Triple} (h : Rewords g g') (hrestated : Restated t t') :
    ∃ later later', g.accept t = .ok later ∧ g'.accept t' = .ok later' ∧ Rewords later later' := by
  cases hrestated with
  | same =>
    unfold ResourceGraph.accept
    cases Predicate.ofIri? t.predicate with
    | none => exact ⟨_, _, rfl, rfl, h.counted.ignore⟩
    | some p =>
      cases t.object with
      | node n =>
        cases p with
        | relation r => exact ⟨_, _, rfl, rfl, h.counted.relate r⟩
        | text property => exact ⟨_, _, rfl, rfl, h.counted.ignore⟩
      | literal l =>
        cases p with
        | relation r => exact ⟨_, _, rfl, rfl, h.counted.report (.same _)⟩
        | text property => exact ⟨_, _, rfl, rfl, h.counted.describe property l⟩
  | inverse hinverse hpredicate hpredicate' =>
    unfold ResourceGraph.accept
    rw [hpredicate, hpredicate']
    exact ⟨_, _, rfl, rfl, h.counted.relate_inverse hinverse⟩

theorem ingest {t t' : Triple} {later : ResourceGraph} (h : Rewords g g')
    (hrestated : Restated t t') (htaken : g.ingest t = .ok later) :
    ∃ later', g'.ingest t' = .ok later' ∧ Rewords later later' := by
  obtain ⟨hopen, haccepted⟩ := of_ingest htaken
  obtain ⟨later₁, later', hstep, hstep', hreworded⟩ := h.accept hrestated
  obtain rfl : later₁ = later := Except.ok.inj (hstep.symm.trans haccepted)
  have hopenToo : g'.frozen = false := h.frozen.trans hopen
  exact ⟨later', by rw [ResourceGraph.ingest, if_neg (by simp [hopenToo]), hstep'], hreworded⟩

/-- What becomes of one graph with some statements becomes of the other with the same statements in
other words. -/
theorem ingestAll {later : ResourceGraph} {triples triples' : List Triple} (h : Rewords g g')
    (hrestated : List.Forall₂ Restated triples triples')
    (htaken : g.ingestAll triples = .ok later) :
    ∃ later', g'.ingestAll triples' = .ok later' ∧ Rewords later later' := by
  induction hrestated generalizing g g' with
  | nil =>
    cases htaken
    exact ⟨g', rfl, h⟩
  | cons hrestated' _ ih =>
    obtain ⟨g₁, hfirst, hothers⟩ := of_ingestAll_cons htaken
    obtain ⟨g₁', hfirst', hreworded⟩ := h.ingest hrestated' hfirst
    obtain ⟨later', htaken', hlast⟩ := ih hreworded hothers
    refine ⟨later', ?_, hlast⟩
    rw [ResourceGraph.ingestAll, hfirst']
    exact htaken'

/-! ## Finishing -/

theorem readMemberLists (h : Rewords g g') : Rewords g.readMemberLists g'.readMemberLists :=
  h.finding _ rfl fun _ => rfl

theorem dropSchemesFromCollections (h : Rewords g g') :
    Rewords g.dropSchemesFromCollections g'.dropSchemesFromCollections :=
  h.finding _ rfl fun _ => rfl

theorem freeze (h : Rewords g g') : Rewords g.freeze g'.freeze := by
  refine h.changing _ issues_freeze fun issues => ?_
  have hasked : (g.noting issues).configuration = g.configuration := rfl
  have hpruned : (g.noting issues).prune = g.prune.noting issues :=
    prune_replaced (·.noting issues) rfl fun _ _ _ => rfl
  rw [freeze_eq, freeze_eq, hasked, hpruned]
  split <;> rfl

theorem checkTopConcepts (h : Rewords g g') : Rewords g.checkTopConcepts g'.checkTopConcepts :=
  h.finding _ rfl fun _ => rfl

/-- Finishing finds the same in both graphs, and they are still the same but for words. -/
theorem completed (h : Rewords g g') : Rewords g.completed g'.completed :=
  h.readMemberLists.dropSchemesFromCollections.freeze.checkTopConcepts

end Rewords

end ResourceGraph

end Thesaurus
