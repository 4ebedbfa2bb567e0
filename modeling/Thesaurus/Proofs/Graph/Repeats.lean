import Thesaurus.Proofs.Graph.Growth

/-!
# Repeated statements

A relation that is stated again changes nothing, whatever was stated in between, and even if it was
refused in part: requests are settled by then, and links and list cells are there already.

- `ResourceGraph.Remarked`: whether nothing changed but issues and counters.
- `ResourceGraph.narrow_eq_self`, `ResourceGraph.join_eq_self`, `ResourceGraph.gather_eq_self`:
  adding links that are there changes nothing.
- `ResourceGraph.HasTaken.absorbs`: a relation that has been taken in is only remarked.
- `repeats_absorbed`: so is every statement about two nodes that comes again.
-/

namespace Thesaurus

open Rdf (Node Predicate Relation Triple)

namespace ResourceGraph

variable {g g₁ g' : ResourceGraph} {m n : Node} {i j : ResourceId} {requested : Kind}
  {cause : Relation}

/-! ## Remarks -/

/-- Whether nothing changed from one graph to another but issues and counters. Issues were added at
the end only, and the number of statements grew. -/
structure Remarked (g g' : ResourceGraph) : Prop where
  resources : g'.resources = g.resources
  lookup : g'.lookup = g.lookup
  cells : g'.cells = g.cells
  configuration : g'.configuration = g.configuration
  frozen : g'.frozen = g.frozen
  issues : g.issues <+: g'.issues
  triples : g.counters.triples ≤ g'.counters.triples
  ignored : g.counters.ignored ≤ g'.counters.ignored
  pruned : g'.counters.pruned = g.counters.pruned

namespace Remarked

theorem refl (g : ResourceGraph) : Remarked g g :=
  ⟨rfl, rfl, rfl, rfl, rfl, List.prefix_rfl, Nat.le_refl _, Nat.le_refl _, rfl⟩

theorem trans (h : Remarked g g₁) (hnext : Remarked g₁ g') : Remarked g g' where
  resources := hnext.resources.trans h.resources
  lookup := hnext.lookup.trans h.lookup
  cells := hnext.cells.trans h.cells
  configuration := hnext.configuration.trans h.configuration
  frozen := hnext.frozen.trans h.frozen
  issues := h.issues.trans hnext.issues
  triples := Nat.le_trans h.triples hnext.triples
  ignored := Nat.le_trans h.ignored hnext.ignored
  pruned := hnext.pruned.trans h.pruned

theorem report (g : ResourceGraph) (issue : Issue) : Remarked g (g.report issue) :=
  ⟨rfl, rfl, rfl, rfl, rfl, List.prefix_append .., Nat.le_refl _, Nat.le_refl _, rfl⟩

theorem ignore (g : ResourceGraph) : Remarked g g.ignore :=
  ⟨rfl, rfl, rfl, rfl, rfl, List.prefix_rfl, Nat.le_refl _, Nat.le_succ _, rfl⟩

theorem counted (g : ResourceGraph) : Remarked g g.counted :=
  ⟨rfl, rfl, rfl, rfl, rfl, List.prefix_rfl, Nat.le_succ _, Nat.le_refl _, rfl⟩

/-- What is only remarked loses nothing. -/
theorem grows (h : Remarked g g') : Grows g g' :=
  .of_resources h.resources h.lookup (fun _ _ hfilled => by rwa [h.cells]) h.configuration

theorem admits_eq (h : Remarked g g') : g'.admits i requested = g.admits i requested := by
  rw [admits, admits, kindOf_congr h.resources]

/-- A request that is settled is only remarked. -/
theorem request (hg : Indexed g) (hn : g.lookup n = some i) (h : g.Asked n requested)
    (cause : Relation) : Remarked g (g.request i requested cause) := by
  obtain ⟨j, hj, hsettled⟩ := h
  obtain rfl : i = j := Option.some.inj (hn.symm.trans hj)
  obtain ⟨r, hr, _⟩ := lookup_eq_some hg hn
  rw [kindOf_eq hr] at hsettled
  unfold ResourceGraph.request
  rw [hr]
  rcases hsettled with hfits | hconflict
  · simp only [hfits]
    exact .refl g
  · simp only [hconflict]
    exact .report g _

end Remarked

/-! ## Links that are there -/

theorem ensure_eq_self (hn : g.lookup n = some i) : g.ensure n = g := by
  rw [ensure, hn]
  rfl

theorem idOf_eq (hn : g.lookup n = some i) : g.idOf n = i := by
  rw [idOf, hn]
  rfl

/-- Changing the links of a resource to themselves changes nothing. -/
theorem updateLinks_eq_self {change : Links → Links}
    (h : change (g.linksOf i) = g.linksOf i) : g.updateLinks i change = g :=
  update_eq_self fun r hr => by
    rw [linksOf_eq hr] at h
    rw [h]

end ResourceGraph

/-- Adding a member changes nothing. -/
theorem IdSet.insert_eq_self {id : ResourceId} {s : IdSet} (h : id ∈ s) : s.insert id = s := by
  refine IdSet.ext fun other => ?_
  rw [IdSet.mem_insert]
  exact ⟨fun hother => hother.elim (fun hsame => hsame ▸ h) fun hother => hother, .inr⟩

namespace ResourceGraph

variable {g g₁ g' : ResourceGraph} {m n : Node} {i j : ResourceId} {requested : Kind}
  {cause : Relation} {top : Bool}

theorem mem_along {tie : Tie} (h : g.Relates tie m n) (hm : g.lookup m = some i)
    (hn : g.lookup n = some j) : j ∈ (g.linksOf i).along tie := by
  obtain ⟨i', j', hi, hj, hrelated⟩ := h
  obtain rfl : i = i' := Option.some.inj (hm.symm.trans hi)
  obtain rfl : j = j' := Option.some.inj (hn.symm.trans hj)
  exact hrelated

theorem narrow_eq_self (hij : j ∈ (g.linksOf i).narrower) (hji : i ∈ (g.linksOf j).broader) :
    g.narrow i j = g := by
  have hfirst : (g.updateLinks i fun l => { l with narrower := l.narrower.insert j }) = g :=
    updateLinks_eq_self (by rw [IdSet.insert_eq_self hij])
  rw [narrow, hfirst]
  exact updateLinks_eq_self (by rw [IdSet.insert_eq_self hji])

theorem join_eq_self (hij : j ∈ (g.linksOf i).inSchemes) (hji : i ∈ (g.linksOf j).schemeMembers)
    (htop : top = true → i ∈ (g.linksOf j).topConcepts) : g.join i j top = g := by
  have hfirst : (g.updateLinks i fun l => { l with inSchemes := l.inSchemes.insert j }) = g :=
    updateLinks_eq_self (by rw [IdSet.insert_eq_self hij])
  rw [join, hfirst]
  refine updateLinks_eq_self ?_
  rw [IdSet.insert_eq_self hji]
  split
  · next hisTop => rw [IdSet.insert_eq_self (htop hisTop)]
  · rfl

theorem gather_eq_self (hij : j ∈ (g.linksOf i).members) (hji : i ∈ (g.linksOf j).inCollections) :
    g.gather i j = g := by
  have hfirst : (g.updateLinks i fun l => { l with members := l.members.insert j }) = g :=
    updateLinks_eq_self (by rw [IdSet.insert_eq_self hij])
  rw [gather, hfirst]
  exact updateLinks_eq_self (by rw [IdSet.insert_eq_self hji])

namespace Remarked

/-- Linking what was linked is only remarked. -/
theorem narrow (h : Remarked g g₁) (hm : g.lookup m = some i) (hn : g.lookup n = some j)
    (hdown : g.Relates .narrower m n) (hup : g.Relates .broader n m) :
    Remarked g (g₁.narrow i j) := by
  have hm₁ := h.grows.found m i hm
  have hn₁ := h.grows.found n j hn
  rwa [narrow_eq_self (mem_along (hdown.grows h.grows) hm₁ hn₁)
    (mem_along (hup.grows h.grows) hn₁ hm₁)]

theorem join (h : Remarked g g₁) (hm : g.lookup m = some i) (hn : g.lookup n = some j)
    (hinScheme : g.Relates .inSchemes m n) (hmember : g.Relates .schemeMembers n m)
    (htopConcept : top = true → g.Relates .topConcepts n m) : Remarked g (g₁.join i j top) := by
  have hm₁ := h.grows.found m i hm
  have hn₁ := h.grows.found n j hn
  rwa [join_eq_self (mem_along (hinScheme.grows h.grows) hm₁ hn₁)
    (mem_along (hmember.grows h.grows) hn₁ hm₁)
    fun hisTop => mem_along ((htopConcept hisTop).grows h.grows) hn₁ hm₁]

theorem gather (h : Remarked g g₁) (hm : g.lookup m = some i) (hn : g.lookup n = some j)
    (hdown : g.Relates .members m n) (hup : g.Relates .inCollections n m) :
    Remarked g (g₁.gather i j) := by
  have hm₁ := h.grows.found m i hm
  have hn₁ := h.grows.found n j hn
  rwa [gather_eq_self (mem_along (hdown.grows h.grows) hm₁ hn₁)
    (mem_along (hup.grows h.grows) hn₁ hm₁)]

end Remarked

/-! ## Relations that come again -/

theorem linkType_absorbs {class_ : Node} (hg : Indexed g)
    (h : ∀ kind, classKind? g.configuration class_ = some kind → g.Asked n kind) :
    Remarked g (g.linkType n class_) := by
  unfold linkType
  split
  · exact .ignore g
  · next kind hkind =>
    obtain ⟨i, hn, hsettled⟩ := h kind hkind
    rw [ensure_eq_self hn, idOf_eq hn]
    exact .request hg hn ⟨i, hn, hsettled⟩ _

theorem HasRanked.absorbs (hg : Indexed g) (h : g.HasRanked m n) (cause : Relation) :
    Remarked g (g.linkHierarchy m n cause) := by
  obtain ⟨i, hm, _⟩ := h.upper_asked
  obtain ⟨j, hn, _⟩ := h.lower_asked
  dsimp only [linkHierarchy]
  rw [ensure_eq_self hm, ensure_eq_self hn, idOf_eq hm, idOf_eq hn]
  have hfirst : Remarked g (g.request i .concept cause) := .request hg hm h.upper_asked cause
  have hsecond : Remarked (g.request i .concept cause)
      ((g.request i .concept cause).request j .concept cause) :=
    .request (indexed_request hg) (hfirst.grows.found n j hn) (h.lower_asked.grows hfirst.grows)
      cause
  have hboth := hfirst.trans hsecond
  split
  · next hfits =>
    obtain ⟨hupperFits, hlowerFits⟩ := Bool.and_eq_true_iff.1 hfits
    rw [hfirst.admits_eq] at hlowerFits
    -- nothing was refused, so that the concepts are linked
    obtain ⟨hdown, hup⟩ := (h.linked.resolve_left (not_refused hm hupperFits)).resolve_left
      (not_refused hn hlowerFits)
    exact hboth.narrow hm hn hdown hup
  · exact hboth

theorem HasJoined.absorbs {top : Bool} (hg : Indexed g) (h : g.HasJoined m n top)
    (cause : Relation) : Remarked g (g.linkScheme m n top cause) := by
  obtain ⟨i, hm⟩ := h.member_named
  obtain ⟨j, hn, _⟩ := h.scheme_asked
  dsimp only [linkScheme]
  rw [ensure_eq_self hn, ensure_eq_self hm, idOf_eq hm, idOf_eq hn]
  have hfirst : Remarked g (g.request j .conceptScheme cause) := .request hg hn h.scheme_asked cause
  -- what was admitted then was linked then, and what was refused is refused again
  cases hfits : g.admits j .conceptScheme with
  | false => exact hfirst
  | true =>
    have hschemeFits := not_refused hn hfits
    have hlinked := h.linked.resolve_left hschemeFits
    cases top with
    | false =>
      obtain ⟨hinScheme, hmember, htopConcept⟩ :=
        hlinked.resolve_left fun hrefused => Bool.noConfusion hrefused.1
      exact hfirst.join hm hn hinScheme hmember htopConcept
    | true =>
      have hmemberAsked := (h.member_asked.resolve_left hschemeFits) rfl
      have hsecond : Remarked (g.request j .conceptScheme cause)
          ((g.request j .conceptScheme cause).request i .concept cause) :=
        .request (indexed_request hg) (hfirst.grows.found m i hm) (hmemberAsked.grows hfirst.grows)
          cause
      have hboth := hfirst.trans hsecond
      cases hmemberFits : (g.request j .conceptScheme cause).admits i .concept with
      | false => exact hboth
      | true =>
        have hadmitted := hmemberFits
        rw [hfirst.admits_eq] at hadmitted
        obtain ⟨hinScheme, hmember, htopConcept⟩ :=
          hlinked.resolve_left fun hrefused => not_refused hm hadmitted hrefused.2
        exact hboth.join hm hn hinScheme hmember htopConcept

theorem HasGathered.absorbs (hg : Indexed g) (h : g.HasGathered m n) :
    Remarked g (g.linkMember m n) := by
  obtain ⟨i, hm, _⟩ := h.collection_asked
  obtain ⟨j, hn⟩ := h.member_named
  dsimp only [linkMember]
  rw [ensure_eq_self hm, ensure_eq_self hn, idOf_eq hm, idOf_eq hn]
  have hfirst : Remarked g (g.request i .collection .member) := .request hg hm h.collection_asked _
  split
  · exact hfirst
  · next hfits =>
    have hadmitted : g.admits i .collection = true := by simpa using hfits
    obtain ⟨hdown, hup⟩ := h.linked.resolve_left (not_refused hm hadmitted)
    exact hfirst.gather hm hn hdown hup

theorem HasListed.absorbs (hg : Indexed g) (h : g.HasListed m) (head : Node) :
    Remarked g (g.linkMemberList m head) := by
  obtain ⟨i, hm, _⟩ := h.collection_asked
  dsimp only [linkMemberList]
  rw [ensure_eq_self hm, idOf_eq hm]
  have hfirst : Remarked g (g.request i .orderedCollection .memberList) :=
    .request hg hm h.collection_asked _
  split
  · exact hfirst
  · next hfits =>
    have hadmitted : g.admits i .orderedCollection = true := by simpa using hfits
    obtain ⟨j, hj, hheaded⟩ := (h.listed.resolve_left (not_refused hm hadmitted)).grows hfirst.grows
    obtain rfl : i = j := Option.some.inj ((hfirst.grows.found m i hm).symm.trans hj)
    split
    · next hnone => simp [hnone] at hheaded
    · split
      · exact hfirst
      · exact hfirst.trans (.report _ _)

/-- A slot of a list cell that is filled is not filled again. -/
theorem linkCell_absorbs {slot : CellSlot}
    (h : (g.cells.valueOf m slot).isSome = true) (value : Node) :
    Remarked g (g.linkCell m slot value) := by
  unfold linkCell
  rw [CellStore.fill_of_filled h]
  exact ⟨rfl, rfl, rfl, rfl, rfl, List.prefix_append .., Nat.le_refl _, Nat.le_refl _, rfl⟩

/-- A relation that has been taken in is only remarked when it comes again. -/
theorem HasTaken.absorbs {relation : Relation} (hg : Indexed g) (h : g.HasTaken m relation n) :
    Remarked g (g.relate m relation n) := by
  unfold relate
  split
  · exact .ignore g
  · cases relation with
    | type => exact linkType_absorbs hg h
    | broader => exact HasRanked.absorbs hg h _
    | narrower => exact HasRanked.absorbs hg h _
    | inScheme => exact HasJoined.absorbs hg h _
    | topConceptOf => exact HasJoined.absorbs hg h _
    | hasTopConcept => exact HasJoined.absorbs hg h _
    | member => exact HasGathered.absorbs hg h
    | memberList => exact HasListed.absorbs hg h n
    | listFirst => exact linkCell_absorbs h n
    | listRest => exact linkCell_absorbs h n

end ResourceGraph

open ResourceGraph

/-- A statement about two nodes that comes again when all statements are in changes nothing but
issues and counters, whatever was stated before and after it, and whether or not it was refused. -/
theorem repeats_absorbed (c : Configuration) (triples : List Triple) {t : Triple} {n : Node}
    (ht : t ∈ triples) (hobject : t.object = .node n) :
    ∃ g g', (new c).ingestAll triples = .ok g ∧ g.ingest t = .ok g' ∧ Remarked g g' := by
  obtain ⟨g, htaken, _, _, hfrozen, _⟩ :=
    exists_ingestAll triples (Sound.new c) (rfl : (new c).frozen = false)
  obtain ⟨g', hingested⟩ := exists_ingest t hfrozen
  refine ⟨g, g', htaken, hingested, ?_⟩
  have hindexed : Indexed g := ((Reachable.new c).ingestAll htaken).sound.indexed
  have hcounted := Remarked.counted g
  -- what the statement asked for the first time is there, whatever came after it
  cases accepted_of_accept (of_ingest hingested).2 with
  | unknown => exact hcounted.trans (.ignore _)
  | @related r _ hpredicate hobject' =>
    refine hcounted.trans ?_
    cases hconsidered : considers g.configuration r with
    | true =>
      have hbefore := (ingestAll_takes_up (Sound.new c) htaken).2 t ht r _ hpredicate hobject'
        hconsidered
      exact (hbefore.grows hcounted.grows).absorbs (hindexed.congr rfl rfl)
    | false =>
      have hignored : considers g.counted.configuration r = false := hconsidered
      unfold relate
      rw [hignored]
      exact .ignore _
  | described _ hobject' =>
    rw [hobject] at hobject'
    cases hobject'
  | refused _ hobject' =>
    rw [hobject] at hobject'
    cases hobject'
  | untold => exact hcounted.trans (.ignore _)

/-- Statements of which the second is refused in part: a scheme is no concept, but what is narrower
than it becomes one, and is put into the scheme later. -/
def partlyRefused : List Triple := [
  ⟨.iri "urn:s", "http://www.w3.org/1999/02/22-rdf-syntax-ns#type",
    .node (.iri "http://www.w3.org/2004/02/skos/core#ConceptScheme")⟩,
  ⟨.iri "urn:a", "http://www.w3.org/2004/02/skos/core#broader", .node (.iri "urn:s")⟩,
  ⟨.iri "urn:a", "http://www.w3.org/2004/02/skos/core#topConceptOf", .node (.iri "urn:s")⟩]

theorem repeats_absorbed_partlyRefused :
    ∃ g g', (new { conceptSchemes := true }).ingestAll partlyRefused = .ok g ∧
      g.ingest ⟨.iri "urn:a", "http://www.w3.org/2004/02/skos/core#broader",
        .node (.iri "urn:s")⟩ = .ok g' ∧ Remarked g g' :=
  repeats_absorbed _ partlyRefused (by simp [partlyRefused]) rfl

end Thesaurus
