import Thesaurus.Proofs.Graph.Finish

/-!
# What statements cannot see

Some parts of a graph are not looked at when statements are taken in. When such a part is replaced,
it does not matter whether this is done before or after.

- `TakesAlike`: whether two configurations have the same answers about a statement.
- `ResourceGraph.Overlooked`: whether all small changes overlook what is replaced.
- `ResourceGraph.Overlooked.relate`: then relations overlook it.
- `ResourceGraph.Overlooked.accept`, `ResourceGraph.Overlooked.ingestAll`: so do statements.
-/

namespace Thesaurus

open Rdf (Literal Node Predicate Relation TextProperty Triple)

/-- Whether two configurations have the same answers about a statement: about URL forms, the
preferred language, its relation and its class. -/
structure TakesAlike (c c' : Configuration) (t : Triple) : Prop where
  urls : c.resolveUrls = c'.resolveUrls
  language : c.primaryLanguage = c'.primaryLanguage
  relation : ∀ r, Predicate.ofIri? t.predicate = some (.relation r) →
    ResourceGraph.considers c r = ResourceGraph.considers c' r
  class_ : Predicate.ofIri? t.predicate = some (.relation .type) → ∀ n, t.object = .node n →
    ResourceGraph.classKind? c n = ResourceGraph.classKind? c' n

theorem TakesAlike.refl (c : Configuration) (t : Triple) : TakesAlike c c t :=
  ⟨rfl, rfl, fun _ _ => rfl, fun _ _ _ => rfl⟩

namespace ResourceGraph

/-- Whether the small changes of a graph overlook what is replaced in graphs of the configuration
`c`, which thereby come to have the configuration `c'`. -/
structure Overlooked (c c' : Configuration) (replace : ResourceGraph → ResourceGraph) : Prop where
  configuration : ∀ {g : ResourceGraph}, g.configuration = c → (replace g).configuration = c'
  resources : ∀ g : ResourceGraph, (replace g).resources = g.resources
  index : ∀ g : ResourceGraph, (replace g).index = g.index
  frozen : ∀ g : ResourceGraph, (replace g).frozen = g.frozen
  withResources : ∀ (g : ResourceGraph) (resources : Array Resource)
    (index : Table Node ResourceId),
    { replace g with resources := resources, index := index } =
      replace { g with resources := resources, index := index }
  report : ∀ (g : ResourceGraph) (i : Issue), (replace g).report i = replace (g.report i)
  linkCell : ∀ (g : ResourceGraph) (cell : Node) (slot : CellSlot) (value : Node),
    (replace g).linkCell cell slot value = replace (g.linkCell cell slot value)
  ignore : ∀ g : ResourceGraph, (replace g).ignore = replace g.ignore
  counted : ∀ g : ResourceGraph, (replace g).counted = replace g.counted

namespace Overlooked

variable {c c' : Configuration} {replace : ResourceGraph → ResourceGraph} {g : ResourceGraph}
  {m n : Node} {id : ResourceId} {t : Triple} {requested : Kind} {cause : Relation}

/-! ## Small changes -/

theorem lookup (h : Overlooked c c' replace) : (replace g).lookup n = g.lookup n := by
  rw [ResourceGraph.lookup, ResourceGraph.lookup, h.index]

theorem size (h : Overlooked c c' replace) : (replace g).size = g.size := by
  rw [ResourceGraph.size, ResourceGraph.size, h.resources]

theorem idOf (h : Overlooked c c' replace) : (replace g).idOf n = g.idOf n := by
  rw [ResourceGraph.idOf, ResourceGraph.idOf, h.lookup, h.size]

theorem admits (h : Overlooked c c' replace) :
    (replace g).admits id requested = g.admits id requested := by
  rw [ResourceGraph.admits, ResourceGraph.admits, kindOf_congr (h.resources g)]

theorem linksOf (h : Overlooked c c' replace) : (replace g).linksOf id = g.linksOf id := by
  rw [linksOf_congr (h.resources g)]

theorem update (h : Overlooked c c' replace) {change : Resource → Resource} :
    (replace g).update id change = replace (g.update id change) := by
  unfold ResourceGraph.update
  rw [h.resources, h.index]
  exact h.withResources g _ _

theorem updateLinks (h : Overlooked c c' replace) {change : Links → Links} :
    (replace g).updateLinks id change = replace (g.updateLinks id change) :=
  h.update

theorem request (h : Overlooked c c' replace) :
    (replace g).request id requested cause = replace (g.request id requested cause) := by
  rw [ResourceGraph.request, ResourceGraph.request, h.resources]
  cases g.resources[id]? with
  | none => rfl
  | some r =>
    dsimp only
    cases r.kind.transition requested with
    | keep => rfl
    | set kind => exact h.update
    | conflict => exact h.report g _

/-- New resources have the same URL forms. -/
theorem ensure (h : Overlooked c c' replace) (hg : g.configuration = c)
    (hurls : c'.resolveUrls = c.resolveUrls) : (replace g).ensure n = replace (g.ensure n) := by
  have hmade : (replace g).newResource n = g.newResource n := by
    unfold newResource
    rw [h.configuration hg, hg, hurls, h.size]
  rw [ResourceGraph.ensure, ResourceGraph.ensure, h.lookup, hmade, h.resources, h.index, h.size]
  split
  · rfl
  · exact h.withResources g _ _

theorem ite {g' : ResourceGraph} {p : Prop} [Decidable p] :
    (if p then replace g else replace g') = replace (if p then g else g') := by
  split <;> rfl

/-! ## Statements -/

theorem linkType (h : Overlooked c c' replace) (hg : g.configuration = c)
    (hurls : c'.resolveUrls = c.resolveUrls) (hclass : classKind? c' n = classKind? c n) :
    (replace g).linkType m n = replace (g.linkType m n) := by
  rw [ResourceGraph.linkType, ResourceGraph.linkType, h.configuration hg, hg, hclass]
  cases classKind? c n with
  | none => exact h.ignore g
  | some kind =>
    dsimp only
    rw [h.ensure hg hurls, h.idOf, h.request]

theorem linkHierarchy (h : Overlooked c c' replace) (hg : g.configuration = c)
    (hurls : c'.resolveUrls = c.resolveUrls) :
    (replace g).linkHierarchy m n cause = replace (g.linkHierarchy m n cause) := by
  simp only [ResourceGraph.linkHierarchy, h.idOf, h.ensure, hg, hurls, configuration_ensure,
    h.admits, h.request, h.updateLinks, ite]

theorem linkScheme {top : Bool} (h : Overlooked c c' replace) (hg : g.configuration = c)
    (hurls : c'.resolveUrls = c.resolveUrls) :
    (replace g).linkScheme m n top cause = replace (g.linkScheme m n top cause) := by
  simp only [ResourceGraph.linkScheme, h.idOf, h.ensure, hg, hurls, configuration_ensure,
    h.admits, h.request, h.updateLinks, ite]

theorem linkMember (h : Overlooked c c' replace) (hg : g.configuration = c)
    (hurls : c'.resolveUrls = c.resolveUrls) :
    (replace g).linkMember m n = replace (g.linkMember m n) := by
  simp only [ResourceGraph.linkMember, h.idOf, h.ensure, hg, hurls, configuration_ensure,
    h.admits, h.request, h.updateLinks, ite]

theorem linkMemberList (h : Overlooked c c' replace) (hg : g.configuration = c)
    (hurls : c'.resolveUrls = c.resolveUrls) :
    (replace g).linkMemberList m n = replace (g.linkMemberList m n) := by
  simp only [ResourceGraph.linkMemberList, h.idOf, h.ensure hg hurls, h.admits, h.request,
    h.updateLinks, h.linksOf, h.report]
  split
  · rfl
  · split
    · rfl
    · exact ite

/-- Relations overlook what is replaced. -/
theorem relate {r : Relation} (h : Overlooked c c' replace) (hg : g.configuration = c)
    (hurls : c'.resolveUrls = c.resolveUrls) (hrelation : considers c' r = considers c r)
    (hclass : r = .type → classKind? c' n = classKind? c n) :
    (replace g).relate m r n = replace (g.relate m r n) := by
  unfold ResourceGraph.relate
  rw [h.configuration hg, hg, hrelation]
  split
  · exact h.ignore g
  · cases r with
    | type => exact h.linkType hg hurls (hclass rfl)
    | broader => exact h.linkHierarchy hg hurls
    | narrower => exact h.linkHierarchy hg hurls
    | inScheme => exact h.linkScheme hg hurls
    | topConceptOf => exact h.linkScheme hg hurls
    | hasTopConcept => exact h.linkScheme hg hurls
    | member => exact h.linkMember hg hurls
    | memberList => exact h.linkMemberList hg hurls
    | listFirst => exact h.linkCell g ..
    | listRest => exact h.linkCell g ..

/-- Texts do. -/
theorem describe {property : TextProperty} {l : Literal} (h : Overlooked c c' replace)
    (hg : g.configuration = c) (hurls : c'.resolveUrls = c.resolveUrls)
    (hlanguage : c'.primaryLanguage = c.primaryLanguage) :
    (replace g).describe n property l = replace (g.describe n property l) := by
  simp only [ResourceGraph.describe, h.configuration hg, hg, h.idOf, h.ensure hg hurls, h.update,
    hlanguage]

/-- A statement about which the two configurations have the same answers does. -/
theorem accept (h : Overlooked c c' replace) (hg : g.configuration = c)
    (halike : TakesAlike c' c t) : (replace g).accept t = (g.accept t).map replace := by
  have hcounted := h.counted g
  unfold ResourceGraph.counted at hcounted
  unfold ResourceGraph.accept
  rw [hcounted]
  cases hpredicate : Predicate.ofIri? t.predicate with
  | none => exact congrArg Except.ok (h.ignore _)
  | some p =>
    cases hobject : t.object with
    | node n =>
      cases p with
      | relation r =>
        exact congrArg Except.ok (h.relate (g := g.counted) hg halike.urls
          (halike.relation r hpredicate) fun htype => halike.class_ (htype ▸ hpredicate) n hobject)
      | text property => exact congrArg Except.ok (h.ignore _)
    | literal l =>
      cases p with
      | relation r => exact congrArg Except.ok (h.report _ _)
      | text property =>
        exact congrArg Except.ok (h.describe (g := g.counted) hg halike.urls halike.language)

/-- So do statements in order. -/
theorem ingestAll {triples : List Triple} (h : Overlooked c c' replace) (hg : g.configuration = c)
    (halike : ∀ t ∈ triples, TakesAlike c' c t) :
    (replace g).ingestAll triples = (g.ingestAll triples).map replace := by
  induction triples generalizing g with
  | nil => rfl
  | cons t rest ih =>
    have hfirst : (replace g).ingest t = (g.ingest t).map replace := by
      rw [ingest, ingest, h.frozen, h.accept hg (halike t List.mem_cons_self)]
      split <;> rfl
    rw [ResourceGraph.ingestAll, ResourceGraph.ingestAll, hfirst]
    cases htaken : g.ingest t with
    | error d => rfl
    | ok g₁ =>
      exact ih ((configuration_accept (of_ingest htaken).2).trans hg) fun t ht =>
        halike t (List.mem_cons_of_mem _ ht)

end Overlooked

end ResourceGraph

end Thesaurus
