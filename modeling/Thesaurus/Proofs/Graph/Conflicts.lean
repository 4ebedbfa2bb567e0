import Thesaurus.Proofs.Graph.Growth

/-!
# Statements that contradict a kind

A statement about two resources first adds them, then asks them to be of the kinds that it takes,
and links them last. If one of them cannot be of such a kind, a conflict is recorded and nothing is
linked; otherwise just what was stated is linked, at both ends.

- `OnlyNames`: what can become of a graph in which nothing is linked.
- `Asks`: the same for requests, which are all met or leave a conflict behind.
- `tiesOf`: what a statement links.
- `Settles`, `Settles.relate`: a relation leaves a conflict behind, or links what it says.
- `conflicts_link_nothing`: so does every statement.
-/

namespace Thesaurus

open Rdf (Node Predicate Relation Triple)
open ResourceGraph

variable {g g₁ g' : ResourceGraph} {nodes : List Node}

/-! ## Nothing is linked -/

/-- What can become of a graph in which nothing is linked. Resources keep all but their kinds, which
move on as they can, and only at the given nodes; new resources have no links and no texts. -/
structure OnlyNames (nodes : List Node) (g g' : ResourceGraph) : Prop where
  kept : ∀ (i : ResourceId) r, g.resources[i]? = some r →
    ∃ kind, g'.resources[i]? = some { r with kind := kind } ∧ (kind = r.kind ∨ r.node ∈ nodes)
  added : ∀ (i : ResourceId) r, g.resources[i]? = none → g'.resources[i]? = some r →
    r.node ∈ nodes ∧ r.links = {} ∧ r.texts = {}
  becomes : ∀ i, (g.kindOf i).Becomes (g'.kindOf i)
  cells : g'.cells = g.cells
  configuration : g'.configuration = g.configuration

namespace OnlyNames

/-- Nothing happens to resources that stay the same. -/
theorem of_resources (hresources : g'.resources = g.resources) (hcells : g'.cells = g.cells)
    (hconfiguration : g'.configuration = g.configuration) : OnlyNames nodes g g' where
  kept := fun i r hr => ⟨r.kind, hresources ▸ hr, .inl rfl⟩
  added := fun i r hnone hr => by
    rw [hresources, hnone] at hr
    cases hr
  becomes := fun i => by
    rw [kindOf_congr hresources]
    exact .refl _
  cells := hcells
  configuration := hconfiguration

theorem trans (h : OnlyNames nodes g g₁) (hnext : OnlyNames nodes g₁ g') :
    OnlyNames nodes g g' where
  kept := fun i r hr => by
    obtain ⟨kind₁, hr₁, hmoved₁⟩ := h.kept i r hr
    obtain ⟨kind, hr', hmoved⟩ := hnext.kept i _ hr₁
    refine ⟨kind, hr', ?_⟩
    rcases hmoved with rfl | hmem
    · exact hmoved₁
    · exact .inr hmem
  added := fun i r' hnone hr' => by
    cases hr₁ : g₁.resources[i]? with
    | none => exact hnext.added i r' hr₁ hr'
    | some r₁ =>
      obtain ⟨kind, heq, _⟩ := hnext.kept i r₁ hr₁
      obtain rfl : { r₁ with kind := kind } = r' := Option.some.inj (heq.symm.trans hr')
      exact h.added i r₁ hnone hr₁
  becomes := fun i => (h.becomes i).trans (hnext.becomes i)
  cells := hnext.cells.trans h.cells
  configuration := hnext.configuration.trans h.configuration

theorem ensure (g : ResourceGraph) {n : Node} (hn : n ∈ nodes) :
    OnlyNames nodes g (g.ensure n) where
  kept := fun i r hr => by
    have hold : ¬ (g.lookup n = none ∧ i = g.size) := fun hnew => Nat.ne_of_lt (lt_size hr) hnew.2
    exact ⟨r.kind, by rw [get_ensure, if_neg hold, hr], .inl rfl⟩
  added := fun i r hnone hr => by
    rw [get_ensure] at hr
    split at hr
    · cases hr
      exact ⟨hn, rfl, rfl⟩
    · rw [hnone] at hr
      cases hr
  becomes := fun i => by
    rw [kindOf_ensure]
    exact .refl _
  cells := cells_ensure
  configuration := configuration_ensure

theorem request (h : Indexed g) {n : Node} {id : ResourceId} (hn : n ∈ nodes)
    (hfound : g.lookup n = some id) (requested : Kind) (cause : Relation) :
    OnlyNames nodes g (g.request id requested cause) := by
  obtain ⟨asked, hasked, rfl⟩ := lookup_eq_some h hfound
  have hgrows := Grows.request g id requested cause
  refine ⟨fun i r hr => ?_, fun i r hnone hr => ?_, hgrows.becomes, cells_request,
    hgrows.configuration⟩
  · rw [get_request, hr]
    by_cases hsame : i = id
    · subst hsame
      rw [hasked, Option.some.injEq] at hr
      exact ⟨r.kind.after requested, if_pos rfl, .inr (hr ▸ hn)⟩
    · exact ⟨r.kind, if_neg hsame, .inl rfl⟩
  · -- no request adds a resource
    have hinside : i < g.size := by
      have hinside := lt_size hr
      rwa [size_request] at hinside
    obtain ⟨s, hs⟩ := exists_resource hinside
    rw [hs] at hnone
    cases hnone

end OnlyNames

/-! ## Requests -/

/-- Nothing is linked while resources are added and asked to be of some kinds, and a conflict is
recorded unless all requests are met. -/
structure Asks (nodes : List Node) (fits : Bool) (g g' : ResourceGraph) : Prop where
  names : OnlyNames nodes g g'
  relates_iff : ∀ tie m n, g'.Relates tie m n ↔ g.Relates tie m n
  issues : ∃ added, g'.issues = g.issues ++ added ∧
    if fits then added = [] else ∃ i ∈ added, i.kind = .typeConflict

namespace Asks

variable {a b : Bool}

theorem trans (h : Asks nodes a g g₁) (hnext : Asks nodes b g₁ g') :
    Asks nodes (a && b) g g' where
  names := h.names.trans hnext.names
  relates_iff := fun tie m n => (hnext.relates_iff tie m n).trans (h.relates_iff tie m n)
  issues := by
    obtain ⟨first, heq₁, hconflict₁⟩ := h.issues
    obtain ⟨second, heq, hconflict⟩ := hnext.issues
    refine ⟨first ++ second, by rw [heq, heq₁, List.append_assoc], ?_⟩
    cases a with
    | false =>
      obtain ⟨i, hmem, hkind⟩ := hconflict₁
      exact ⟨i, List.mem_append_left _ hmem, hkind⟩
    | true =>
      obtain rfl : first = [] := hconflict₁
      exact hconflict

theorem ensure (h : Sound g) {n : Node} (hn : n ∈ nodes) : Asks nodes true g (g.ensure n) where
  names := .ensure g hn
  relates_iff := fun _ _ _ => relates_ensure h
  issues := by
    refine ⟨[], ?_, rfl⟩
    unfold ResourceGraph.ensure
    split <;> exact (List.append_nil _).symm

/-- A request is met just if the resource may be of the kind. -/
theorem request (h : Indexed g) {n : Node} {id : ResourceId} (hn : n ∈ nodes)
    (hfound : g.lookup n = some id) (requested : Kind) (cause : Relation) :
    Asks nodes (g.admits id requested) g (g.request id requested cause) where
  names := .request h hn hfound requested cause
  relates_iff := fun _ _ _ => relates_congr lookup_request fun i => by rw [linksOf_request]
  issues := by
    refine ⟨g.refusal id requested cause, by rw [request_eq], ?_⟩
    by_cases hmet : g.admits id requested = true
    · rw [if_pos hmet]
      exact refusal_eq_nil_iff.2 hmet
    · have hleft : g.refusal id requested cause ≠ [] := fun hnothing =>
        hmet (refusal_eq_nil_iff.1 hnothing)
      obtain ⟨i, hmem⟩ := List.exists_mem_of_ne_nil _ hleft
      rw [if_neg hmet]
      exact ⟨i, hmem, kind_of_mem_refusal hmem⟩

end Asks

/-! ## What is linked -/

/-- What is linked when one concept is narrower than another. -/
def hierarchyTies (upper lower : Node) : List (Tie × Node × Node) :=
  [(.narrower, upper, lower), (.broader, lower, upper)]

/-- What is linked when a resource is in a scheme. -/
def schemeTies (member scheme : Node) (top : Bool) : List (Tie × Node × Node) :=
  [(.inSchemes, member, scheme), (.schemeMembers, scheme, member)] ++
    if top then [(.topConcepts, scheme, member)] else []

/-- What a relation between two nodes links, if it is considered. -/
def relationTies (subject : Node) (relation : Relation) (object : Node) :
    List (Tie × Node × Node) :=
  match relation with
  | .broader => hierarchyTies object subject
  | .narrower => hierarchyTies subject object
  | .inScheme => schemeTies subject object false
  | .topConceptOf => schemeTies subject object true
  | .hasTopConcept => schemeTies object subject true
  | .member => [(.members, subject, object), (.inCollections, object, subject)]
  | .type | .memberList | .listFirst | .listRest => []

/-- What a statement links. -/
def tiesOf (c : Configuration) (t : Triple) : List (Tie × Node × Node) :=
  match Predicate.ofIri? t.predicate, t.object with
  | some (.relation r), .node object =>
    if considers c r then relationTies t.subject r object else []
  | _, _ => []

/-- A graph settles a relation: a conflict is recorded and nothing is linked, or just the given ties
are added. -/
def Settles (nodes : List Node) (ties : List (Tie × Node × Node)) (g g' : ResourceGraph) : Prop :=
  ∃ added, g'.issues = g.issues ++ added ∧
    ((∃ i ∈ added, i.kind = .typeConflict) → OnlyNames nodes g g') ∧
    ((∀ i ∈ added, i.kind ≠ .typeConflict) →
      ∀ tie m n, g'.Relates tie m n ↔ g.Relates tie m n ∨ (tie, m, n) ∈ ties)

namespace Settles

variable {ties : List (Tie × Node × Node)} {m n : Node}

/-- Where no issue is recorded, no conflict is. -/
theorem unremarked (hsame : g'.issues = g.issues) :
    ∃ added, g'.issues = g.issues ++ added ∧ ∀ i ∈ added, i.kind ≠ .typeConflict :=
  ⟨[], hsame.trans (List.append_nil _).symm, fun _ hmem => absurd hmem List.not_mem_nil⟩

/-- A request that is not met settles a relation. -/
theorem refused (hasked : Asks nodes false g g') : Settles nodes ties g g' := by
  obtain ⟨added, heq, i, hmem, hconflict⟩ := hasked.issues
  exact ⟨added, heq, fun _ => hasked.names, fun hquiet => absurd hconflict (hquiet i hmem)⟩

/-- So do links that are made when all requests are met. -/
theorem linked (hasked : Asks nodes true g g₁)
    (hissues : ∃ added, g'.issues = g₁.issues ++ added ∧ ∀ i ∈ added, i.kind ≠ .typeConflict)
    (hrelates : ∀ tie m n, g'.Relates tie m n ↔ g₁.Relates tie m n ∨ (tie, m, n) ∈ ties) :
    Settles nodes ties g g' := by
  obtain ⟨before, heq₁, rfl⟩ := hasked.issues
  obtain ⟨added, heq, hquiet⟩ := hissues
  refine ⟨added, by rw [heq, heq₁, List.append_nil], ?_, fun _ tie m n => ?_⟩
  · rintro ⟨i, hmem, hconflict⟩
    exact absurd hconflict (hquiet i hmem)
  · rw [hrelates, hasked.relates_iff]

/-- Links at both ends are made in two changes, which record nothing. -/
theorem linkedBoth {i j : ResourceId} {change change' : Links → Links}
    (hasked : Asks nodes true g g₁)
    (hrelates : ∀ tie m n, ((g₁.updateLinks i change).updateLinks j change').Relates tie m n ↔
      g₁.Relates tie m n ∨ (tie, m, n) ∈ ties) :
    Settles nodes ties g ((g₁.updateLinks i change).updateLinks j change') :=
  linked hasked (unremarked rfl) hrelates

/-- Links are made only if all requests are met. -/
theorem guarded {fits : Bool} (hasked : Asks nodes fits g g₁)
    (hmet : Asks nodes true g g₁ → Settles nodes ties g g') :
    Settles nodes ties g (if !fits then g₁ else g') := by
  cases fits with
  | false => exact refused hasked
  | true => exact hmet hasked

/-- Without requests and links there is nothing to settle. -/
theorem quiet (hissues : ∃ added, g'.issues = g.issues ++ added ∧ ∀ i ∈ added,
      i.kind ≠ .typeConflict)
    (hrelates : ∀ tie m n, g'.Relates tie m n ↔ g.Relates tie m n) : Settles nodes [] g g' := by
  obtain ⟨added, heq, hquiet⟩ := hissues
  refine ⟨added, heq, ?_, fun _ tie m n => by simp [hrelates]⟩
  rintro ⟨i, hmem, hconflict⟩
  exact absurd hconflict (hquiet i hmem)

/-- Resources that stay the same, and are found as before, are related as they were. -/
theorem of_resources (hresources : g'.resources = g.resources) (hlookup : g'.lookup = g.lookup)
    (hissues : ∃ added, g'.issues = g.issues ++ added ∧ ∀ i ∈ added, i.kind ≠ .typeConflict) :
    Settles nodes [] g g' :=
  quiet hissues fun tie m n => relates_congr hlookup fun i => by rw [linksOf_congr hresources]

theorem ignore (g : ResourceGraph) : Settles nodes [] g g.ignore :=
  of_resources rfl rfl (unremarked rfl)

theorem report (g : ResourceGraph) {issue : Issue} (h : issue.kind ≠ .typeConflict) :
    Settles nodes [] g (g.report issue) :=
  of_resources rfl rfl ⟨[issue], rfl, fun _ hmem => by rwa [List.mem_singleton.1 hmem]⟩

theorem linkType (h : Sound g) {class_ : Node} (hm : m ∈ nodes) :
    Settles nodes [] g (g.linkType m class_) := by
  unfold ResourceGraph.linkType
  split
  · exact ignore g
  · next kind _ =>
    have hnamed : Asks nodes true g (g.ensure m) := .ensure h hm
    have hasked := hnamed.trans (.request h.indexed.ensure hm lookup_ensure_self kind .type)
    cases hfits : (g.ensure m).admits (g.idOf m) kind with
    | true =>
      rw [hfits] at hasked
      exact linked hasked (unremarked rfl) fun tie k l => by simp
    | false =>
      rw [hfits] at hasked
      exact refused hasked

theorem linkHierarchy (h : Sound g) (hm : m ∈ nodes) (hn : n ∈ nodes) (cause : Relation) :
    Settles nodes (hierarchyTies m n) g (g.linkHierarchy m n cause) := by
  unfold ResourceGraph.linkHierarchy
  extract_lets upper g₁ lower g₂ upperFits g₃ lowerFits g₄
  have hnamed : Asks nodes true g g₂ := (Asks.ensure h hm).trans (.ensure h.ensure hn)
  have hfound₂ : FindsBoth g₂ m n upper lower := .ensure h.indexed m n
  have hfound₃ : FindsBoth g₃ m n upper lower := hfound₂.request _ _
  have hupperAsked : Asks nodes upperFits g₂ g₃ := .request hfound₂.indexed hm hfound₂.left _ _
  have hlowerAsked : Asks nodes lowerFits g₃ g₄ := .request hfound₃.indexed hn hfound₃.right _ _
  have hasked : Asks nodes (upperFits && lowerFits) g g₄ := by
    have hboth := (hnamed.trans hupperAsked).trans hlowerAsked
    rwa [Bool.true_and] at hboth
  split
  · next hfits =>
    rw [hfits] at hasked
    exact linkedBoth hasked fun tie k l => relates_narrow_iff (hfound₃.request _ _)
  · next hunfit =>
    rw [Bool.eq_false_iff.2 hunfit] at hasked
    exact refused hasked

theorem linkScheme (h : Sound g) (hm : m ∈ nodes) (hn : n ∈ nodes) (top : Bool)
    (cause : Relation) : Settles nodes (schemeTies m n top) g (g.linkScheme m n top cause) := by
  unfold ResourceGraph.linkScheme
  extract_lets schemeId g₁ memberId g₂ schemeFits g₃ memberFits g₄
  have hnamed : Asks nodes true g g₂ := (Asks.ensure h hn).trans (.ensure h.ensure hm)
  have hfound₂ : FindsBoth g₂ n m schemeId memberId := .ensure h.indexed n m
  have hfound₃ : FindsBoth g₃ n m schemeId memberId := hfound₂.request _ _
  have hschemeAsked : Asks nodes schemeFits g g₃ := by
    have hboth := hnamed.trans (.request hfound₂.indexed hn hfound₂.left .conceptScheme cause)
    rwa [Bool.true_and] at hboth
  refine guarded hschemeAsked fun hschemeAsked => ?_
  -- only a top concept is asked to be a concept
  have hmemberAsked : Asks nodes memberFits g₃ g₄ ∧ FindsBoth g₄ n m schemeId memberId := by
    cases top with
    | true =>
      exact ⟨.request hfound₃.indexed hm hfound₃.right .concept cause, hfound₃.request _ _⟩
    | false =>
      refine ⟨⟨.of_resources rfl rfl rfl, fun _ _ _ => Iff.rfl, [], ?_, rfl⟩, hfound₃⟩
      exact (List.append_nil _).symm
  obtain ⟨hmemberAsked, hfound₄⟩ := hmemberAsked
  have hasked : Asks nodes memberFits g g₄ := by
    have hboth := hschemeAsked.trans hmemberAsked
    rwa [Bool.true_and] at hboth
  refine guarded hasked fun hasked => ?_
  exact linkedBoth hasked fun tie k l => relates_join_iff hfound₄.symm top

theorem linkMember (h : Sound g) (hm : m ∈ nodes) (hn : n ∈ nodes) :
    Settles nodes (relationTies m .member n) g (g.linkMember m n) := by
  unfold ResourceGraph.linkMember
  extract_lets collectionId g₁ memberId g₂ fits g₃
  have hnamed : Asks nodes true g g₂ := (Asks.ensure h hm).trans (.ensure h.ensure hn)
  have hfound : FindsBoth g₂ m n collectionId memberId := .ensure h.indexed m n
  have hasked : Asks nodes fits g g₃ := by
    have hboth := hnamed.trans (.request hfound.indexed hm hfound.left .collection .member)
    rwa [Bool.true_and] at hboth
  refine guarded hasked fun hasked => ?_
  exact linkedBoth hasked fun tie k l => relates_gather_iff (hfound.request _ _)

/-- A member list is no relation. -/
theorem linkMemberList (h : Sound g) (hm : m ∈ nodes) (head : Node) :
    Settles nodes [] g (g.linkMemberList m head) := by
  unfold ResourceGraph.linkMemberList
  extract_lets id g₁ fits g₂
  have hasked : Asks nodes fits g g₂ := by
    have hnamed : Asks nodes true g g₁ := .ensure h hm
    have hboth := hnamed.trans
      (.request h.indexed.ensure hm lookup_ensure_self .orderedCollection .memberList)
    rwa [Bool.true_and] at hboth
  refine guarded hasked fun hasked => ?_
  split
  · refine linked hasked (unremarked rfl) fun tie k l => ?_
    have hsame : ∀ i, ((g₂.updateLinks id fun l => { l with memberList := some head }).linksOf
        i).along tie = (g₂.linksOf i).along tie := fun i =>
      field_updateLinks (·.along tie) fun l => by cases tie <;> rfl
    simp [relates_congr (lookup_updateLinks _) hsame]
  · split
    · exact linked hasked (unremarked rfl) fun tie k l => by simp
    · refine linked hasked ⟨_, rfl, by simp [Issue.kind]⟩ fun tie k l => ?_
      simp only [List.not_mem_nil, or_false]
      exact Iff.rfl

/-- Neither are list cells. -/
theorem linkCell (g : ResourceGraph) (cell : Node) (slot : CellSlot) (value : Node) :
    Settles nodes [] g (g.linkCell cell slot value) := by
  refine of_resources rfl rfl ⟨_, rfl, fun i hi => ?_⟩
  rw [Option.mem_toList] at hi
  unfold CellStore.fillIssue? at hi
  split at hi
  · cases hi
  · split at hi
    · cases hi
    · cases hi
      simp [Issue.kind]

/-- Every relation that is considered leaves a conflict behind or links what it says. -/
theorem relate (h : Sound g) (hm : m ∈ nodes) (hn : n ∈ nodes) (r : Relation) :
    Settles nodes (if considers g.configuration r then relationTies m r n else []) g
      (g.relate m r n) := by
  unfold ResourceGraph.relate
  cases hconsidered : considers g.configuration r with
  | false => exact ignore g
  | true =>
    cases r with
    | type => exact linkType h hm
    | broader => exact linkHierarchy h hn hm _
    | narrower => exact linkHierarchy h hm hn _
    | inScheme => exact linkScheme h hm hn _ _
    | topConceptOf => exact linkScheme h hm hn _ _
    | hasTopConcept => exact linkScheme h hn hm _ _
    | member => exact linkMember h hm hn
    | memberList => exact linkMemberList h hm n
    | listFirst => exact linkCell g m _ n
    | listRest => exact linkCell g m _ n

/-- A text is neither a request nor a link. -/
theorem describe (h : Sound g) (n : Node) (p : Rdf.TextProperty) (l : Rdf.Literal) :
    Settles nodes [] g (g.describe n p l) := by
  refine quiet ?_ fun tie k m => ?_
  · unfold ResourceGraph.describe ResourceGraph.ensure
    split <;> exact unremarked rfl
  · refine Iff.trans (relates_congr (lookup_update _) fun i => ?_) (relates_ensure h)
    rw [ResourceGraph.describe, linksOf, linksOf, get_update]
    split <;> cases (g.ensure n).resources[i]? <;> rfl

/-- It does not matter that the statement has been counted. -/
theorem of_counted (h : Settles nodes ties g.counted g') : Settles nodes ties g g' := by
  obtain ⟨added, heq, hconflict, hquiet⟩ := h
  have hcounted : OnlyNames nodes g g.counted := .of_resources rfl rfl rfl
  exact ⟨added, heq, fun hfound => hcounted.trans (hconflict hfound), hquiet⟩

end Settles

/-! ## Statements -/

/-- Every statement that an open graph takes in either records that it contradicts the kind of a
resource, and then nothing is linked, listed or described, or adds just the links that it states. -/
theorem conflicts_link_nothing (h : Reachable g) (hopen : g.frozen = false) (t : Triple) :
    ∃ g' added, g.ingest t = .ok g' ∧ g'.issues = g.issues ++ added ∧
      ((∃ i ∈ added, i.kind = .typeConflict) → OnlyNames (mentioned t) g g') ∧
      ((∀ i ∈ added, i.kind ≠ .typeConflict) → ∀ tie m n, g'.Relates tie m n ↔
        g.Relates tie m n ∨ (tie, m, n) ∈ tiesOf g.configuration t) := by
  obtain ⟨g', htaken⟩ := exists_ingest t hopen
  have hsound : Sound g.counted :=
    h.sound.changes (.single (.remark g.cells g.issues _) : Changes [] _ _)
  have hsubject : t.subject ∈ mentioned t := by
    unfold mentioned
    split <;> exact List.mem_cons_self
  -- counting a statement links nothing, and so does all that is not a relation
  have hsettled : Settles (mentioned t) (tiesOf g.configuration t) g.counted g' := by
    unfold tiesOf
    cases accepted_of_accept (of_ingest htaken).2 with
    | unknown hpredicate =>
      rw [hpredicate]
      exact .ignore _
    | @related r n hpredicate hobject =>
      have hmentions : n ∈ mentioned t := by simp [mentioned, hobject]
      rw [hpredicate, hobject]
      exact .relate hsound hsubject hmentions r
    | described hpredicate hobject =>
      rw [hpredicate, hobject]
      exact .describe hsound _ _ _
    | refused hpredicate hobject =>
      rw [hpredicate, hobject]
      exact .report _ (by simp [Issue.kind])
    | untold hpredicate hobject =>
      rw [hpredicate, hobject]
      exact .ignore _
  obtain ⟨added, heq, hboth⟩ := hsettled.of_counted
  exact ⟨g', added, htaken, heq, hboth⟩

/-- A graph of a scheme and a resource in it. -/
def schemeOfOne : ResourceGraph where
  configuration := { conceptSchemes := true }
  resources := #[
    { id := 0, node := .iri "urn:s", kind := .conceptScheme,
      links := { schemeMembers := .ofList [1] } },
    { id := 1, node := .iri "urn:a", links := { inSchemes := .ofList [0] } }]
  index := ⟨[(.iri "urn:s", 0), (.iri "urn:a", 1)]⟩
  counters := { triples := 1 }

theorem schemeOfOne_reachable : Reachable schemeOfOne := by
  have htaken : (ResourceGraph.new { conceptSchemes := true }).ingestAll
      [⟨.iri "urn:a", "http://www.w3.org/2004/02/skos/core#inScheme", .node (.iri "urn:s")⟩] =
      .ok schemeOfOne := by decide +kernel
  exact (Reachable.new _).ingestAll htaken

/-- That a concept of which nothing is known yet has a broader one. -/
def newlyNarrower (broader : Node) : Triple :=
  ⟨.iri "urn:b", "http://www.w3.org/2004/02/skos/core#broader", .node broader⟩

/-- The scheme cannot be broader than a concept, but the resource in it can. -/
theorem conflicts_link_nothing_schemeOfOne : Reachable schemeOfOne ∧ schemeOfOne.frozen = false ∧
    (∃ g', schemeOfOne.ingest (newlyNarrower (.iri "urn:s")) = .ok g' ∧
      g'.issues.map (·.kind) = [.typeConflict] ∧
      OnlyNames [.iri "urn:b", .iri "urn:s"] schemeOfOne g') ∧
    ∃ g', schemeOfOne.ingest (newlyNarrower (.iri "urn:a")) = .ok g' ∧
      g'.Relates .broader (.iri "urn:b") (.iri "urn:a") ∧
      g'.Relates .narrower (.iri "urn:a") (.iri "urn:b") := by
  refine ⟨schemeOfOne_reachable, rfl, ?_, ?_⟩
  · obtain ⟨g', added, htaken, heq, hconflict, _⟩ :=
      conflicts_link_nothing schemeOfOne_reachable rfl (newlyNarrower (.iri "urn:s"))
    have hfound : (schemeOfOne.ingest (newlyNarrower (.iri "urn:s"))).map (·.issues) =
        .ok [.typeConflict (.iri "urn:s") .conceptScheme .concept .broader] := by decide +kernel
    rw [htaken] at hfound
    have hissues : g'.issues = _ := Except.ok.inj hfound
    have hnew : added = _ := heq.symm.trans hissues
    exact ⟨g', htaken, by rw [hissues]; rfl, hconflict ⟨_, by rw [hnew]; exact List.mem_cons_self,
      rfl⟩⟩
  · obtain ⟨g', added, htaken, heq, _, hlinks⟩ :=
      conflicts_link_nothing schemeOfOne_reachable rfl (newlyNarrower (.iri "urn:a"))
    have hfound : (schemeOfOne.ingest (newlyNarrower (.iri "urn:a"))).map (·.issues) = .ok [] := by
      decide +kernel
    rw [htaken] at hfound
    have hnew : added = [] := heq.symm.trans (Except.ok.inj hfound)
    have hrelates := hlinks fun i hmem => by
      rw [hnew] at hmem
      cases hmem
    have hties : tiesOf schemeOfOne.configuration (newlyNarrower (.iri "urn:a")) =
        hierarchyTies (.iri "urn:a") (.iri "urn:b") := by decide +kernel
    rw [hties] at hrelates
    exact ⟨g', htaken, (hrelates ..).2 (.inr (by simp [hierarchyTies])),
      (hrelates ..).2 (.inr (by simp [hierarchyTies]))⟩

end Thesaurus
