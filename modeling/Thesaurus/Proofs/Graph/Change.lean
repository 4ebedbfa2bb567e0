import Mathlib.Logic.Relation
import Thesaurus.Proofs.Graph.Access
import Thesaurus.Proofs.Graph.Linked

/-!
# The small changes of a graph

Whatever a statement says, taking it in makes a few small changes, one after the other. A property
that every small change keeps is therefore kept by every statement.

- `Change`: the small changes, where `nodes` are the nodes that may become resources.
- `ResourceGraph.Accepted`: what can become of a graph when a statement is taken in.
- `ResourceGraph.relate_changes`, `ResourceGraph.accept_changes`: taking in a relation or any
  statement makes small changes only.
- `ResourceGraph.heedsRelation`: which relations are not ignored.
- `ResourceGraph.KeptByLinks`, `ResourceGraph.KeptByRelations`: what links keep, and relations that
  may also be ignored.
-/

namespace Thesaurus

open Rdf (Literal Node Object Predicate TextProperty Triple)

/-- The nodes of a statement that may become resources. -/
def mentioned (t : Triple) : List Node :=
  match t.object with
  | .node object => [t.subject, object]
  | .literal _ => [t.subject]

/-- Whether resources of a kind are considered at all. -/
def Configuration.considersKind (c : Configuration) : Kind → Bool
  | .conceptScheme => c.conceptSchemes
  | .collection | .orderedCollection => c.collections
  | .concept | .unknown => true

namespace ResourceGraph

variable (g : ResourceGraph)

/-- The graph after one concept was made narrower than another. -/
def narrow (upper lower : ResourceId) : ResourceGraph :=
  (g.updateLinks upper fun l => { l with narrower := l.narrower.insert lower }).updateLinks lower
    fun l => { l with broader := l.broader.insert upper }

/-- The graph after a resource was put into a scheme. -/
def join (member scheme : ResourceId) (top : Bool) : ResourceGraph :=
  (g.updateLinks member fun l =>
    { l with inSchemes := l.inSchemes.insert scheme }).updateLinks scheme fun l =>
      { l with
        schemeMembers := l.schemeMembers.insert member
        topConcepts := if top then l.topConcepts.insert member else l.topConcepts }

/-- The graph after a resource was put into a collection. -/
def gather (collection member : ResourceId) : ResourceGraph :=
  (g.updateLinks collection fun l =>
    { l with members := l.members.insert member }).updateLinks member fun l =>
      { l with inCollections := l.inCollections.insert collection }

/-- The graph after the texts of a resource or the head of its member list changed. -/
def retouch (id : ResourceId) (texts : Texts → Texts) (head : Option Node → Option Node) :
    ResourceGraph :=
  g.update id fun r =>
    { r with
      texts := texts r.texts
      links := { r.links with memberList := head r.links.memberList } }

/-- The graph after the kind of a resource was set. -/
def settle (id : ResourceId) (kind : Kind) : ResourceGraph :=
  g.update id fun r => { r with kind := kind }

end ResourceGraph

/-- The small changes of a graph, where the given nodes may become resources: a node becomes a
resource, unless it is one; a kind moves along an allowed transition; concepts are linked, or a
resource is put into a scheme or a collection; texts change, or the head of an ordered collection's
member list; or the resources stay as they are. -/
inductive Change (nodes : List Node) (g : ResourceGraph) : ResourceGraph → Prop where
  | ensure (n : Node) (hn : n ∈ nodes) : Change nodes g (g.ensure n)
  | settle (id : ResourceId) (requested kind : Kind) (hid : id < g.size)
      (hset : (g.kindOf id).transition requested = .set kind)
      (hconsidered : g.configuration.considersKind kind = true) :
      Change nodes g (g.settle id kind)
  | narrow (upper lower : ResourceId) (hupper : g.kindOf upper = .concept)
      (hlower : g.kindOf lower = .concept) : Change nodes g (g.narrow upper lower)
  | join (member scheme : ResourceId) (top : Bool) (hmember : member < g.size)
      (hscheme : g.kindOf scheme = .conceptScheme)
      (htop : top = true → g.kindOf member = .concept) : Change nodes g (g.join member scheme top)
  | gather (collection member : ResourceId) (hmember : member < g.size)
      (hcollection : (g.kindOf collection).isCollection = true) :
      Change nodes g (g.gather collection member)
  | retouch (id : ResourceId) (texts : Texts → Texts) (head : Option Node → Option Node)
      (hhead : g.kindOf id = .orderedCollection ∨ ∀ l, head l = l) :
      Change nodes g (g.retouch id texts head)
  | remark (cells : CellStore) (issues : List Issue) (counters : Counters) :
      Change nodes g { g with cells := cells, issues := issues, counters := counters }

/-- Several small changes, one after the other. -/
abbrev Changes (nodes : List Node) : ResourceGraph → ResourceGraph → Prop :=
  Relation.ReflTransGen (Change nodes)

namespace Kind

theorem after_concept {k : Kind} (h : k.transition concept ≠ .conflict) :
    k.after concept = concept := by
  cases k <;> simp_all [transition, after]

theorem after_concept_of_isKnown {k : Kind} (h : k.isKnown = true) : k.after concept = k := by
  cases k <;> simp_all [transition, after, isKnown]

theorem after_conceptScheme {k : Kind} (h : k.transition conceptScheme ≠ .conflict) :
    k.after conceptScheme = conceptScheme := by
  cases k <;> simp_all [transition, after]

theorem after_collection {k : Kind} (h : k.transition collection ≠ .conflict) :
    (k.after collection).isCollection = true := by
  cases k <;> simp_all [transition, after, isCollection]

theorem after_orderedCollection {k : Kind} (h : k.transition orderedCollection ≠ .conflict) :
    k.after orderedCollection = orderedCollection := by
  cases k <;> simp_all [transition, after]

end Kind

namespace ResourceGraph

variable {g : ResourceGraph} {nodes : List Node}

theorem request_changes {id : ResourceId} {requested : Kind} {cause : Rdf.Relation}
    (hid : id < g.size) (hconsidered : g.configuration.considersKind requested = true) :
    Changes nodes g (g.request id requested cause) := by
  obtain ⟨r, hfound⟩ := exists_resource hid
  unfold request
  simp only [hfound]
  cases htransition : r.kind.transition requested with
  | keep => exact .refl
  | conflict => exact .single (.remark _ _ _)
  | set kind =>
    have hkind : kind = requested := (Linked.set_cases htransition).1
    refine .single (.settle id requested kind hid ?_ (hkind ▸ hconsidered))
    rw [kindOf_eq hfound, htransition]

/-- Asking any resource to be a concept leaves known kinds as they are. -/
theorem kindOf_request_concept {id other : ResourceId} {cause : Rdf.Relation} (hid : id < g.size)
    (hknown : (g.kindOf other).isKnown = true) :
    (g.request id .concept cause).kindOf other = g.kindOf other := by
  rw [kindOf_request hid]
  split
  · next hsame =>
    subst hsame
    exact Kind.after_concept_of_isKnown hknown
  · rfl

theorem report_changes (i : Issue) : Changes nodes g (g.report i) :=
  .single (.remark _ _ _)

theorem ignore_changes : Changes nodes g g.ignore :=
  .single (.remark _ _ _)

/-! ## Relations -/

/-- The classes that are taken in give kinds that are considered. -/
theorem considersKind_of_classKind? {c : Configuration} {class_ : Node} {kind : Kind}
    (h : classKind? c class_ = some kind) : c.considersKind kind = true := by
  unfold classKind? at h
  split at h
  · cases h
  · split at h
    · split at h
      · next hshown =>
        cases h
        exact hshown
      · cases h
    · split at h
      · next hshown =>
        cases h
        exact hshown
      · cases h
    · split at h
      · next hshown =>
        cases h
        exact hshown
      · cases h
    · next hnoScheme hnoCollection hnoOrdered =>
      cases kind with
      | conceptScheme => exact absurd h hnoScheme
      | collection => exact absurd h hnoCollection
      | orderedCollection => exact absurd h hnoOrdered
      | concept => rfl
      | unknown => rfl

theorem linkType_changes {subject class_ : Node} (h : Indexed g) (hs : subject ∈ nodes) :
    Changes nodes g (g.linkType subject class_) := by
  unfold linkType
  split
  · exact ignore_changes
  · next kind hkind =>
    have hconsidered := considersKind_of_classKind? hkind
    have hensured : Changes nodes g (g.ensure subject) := .single (.ensure subject hs)
    exact hensured.trans (request_changes (idOf_lt_ensure h) (by simpa using hconsidered))

theorem linkHierarchy_changes {broader narrower : Node} {cause : Rdf.Relation} (h : Indexed g)
    (hb : broader ∈ nodes) (hn : narrower ∈ nodes) :
    Changes nodes g (g.linkHierarchy broader narrower cause) := by
  unfold linkHierarchy
  extract_lets upper g₁ lower g₂ upperFits g₃ lowerFits g₄
  have hlower : lower < g₂.size := idOf_lt_ensure h.ensure
  have hupper : upper < g₂.size := Nat.lt_of_lt_of_le (idOf_lt_ensure h) size_le_ensure
  have hensured : Changes nodes g g₂ :=
    (Relation.ReflTransGen.single (.ensure broader hb)).tail (.ensure narrower hn)
  have hrequested₃ : Changes nodes g₂ g₃ := request_changes hupper rfl
  have hlower₃ : lower < g₃.size := by rwa [size_request]
  have hrequested₄ : Changes nodes g₃ g₄ := request_changes hlower₃ rfl
  have hbefore : Changes nodes g g₄ := (hensured.trans hrequested₃).trans hrequested₄
  split
  · next hfits =>
    obtain ⟨hfitsUpper, hfitsLower⟩ := Bool.and_eq_true_iff.1 hfits
    -- both have been asked to be concepts, and the second request does not undo the first
    have hconcept₃ : g₃.kindOf upper = .concept := by
      rw [kindOf_request hupper, if_pos rfl]
      exact Kind.after_concept (by simpa [upperFits, admits] using hfitsUpper)
    have hlowerConcept : g₄.kindOf lower = .concept := by
      rw [kindOf_request hlower₃, if_pos rfl]
      exact Kind.after_concept (by simpa [lowerFits, admits] using hfitsLower)
    have hupperConcept : g₄.kindOf upper = .concept := by
      rw [kindOf_request_concept hlower₃ (by rw [hconcept₃]; rfl), hconcept₃]
    exact hbefore.tail (.narrow upper lower hupperConcept hlowerConcept)
  · exact hbefore

theorem linkScheme_changes {member scheme : Node} {top : Bool} {cause : Rdf.Relation}
    (h : Indexed g) (hm : member ∈ nodes) (hs : scheme ∈ nodes)
    (hshown : g.configuration.conceptSchemes = true) :
    Changes nodes g (g.linkScheme member scheme top cause) := by
  unfold linkScheme
  extract_lets schemeId g₁ memberId g₂ schemeFits g₃ memberFits g₄
  have hmember : memberId < g₂.size := idOf_lt_ensure h.ensure
  have hscheme : schemeId < g₂.size := Nat.lt_of_lt_of_le (idOf_lt_ensure h) size_le_ensure
  have hensured : Changes nodes g g₂ :=
    (Relation.ReflTransGen.single (.ensure scheme hs)).tail (.ensure member hm)
  have hconsidered : g₂.configuration.considersKind .conceptScheme = true := by
    simpa [g₂, g₁, Configuration.considersKind] using hshown
  have hbefore : Changes nodes g g₃ := hensured.trans (request_changes hscheme hconsidered)
  have hmember₃ : memberId < g₃.size := by rwa [size_request]
  have hbefore₄ : Changes nodes g g₄ := by
    show Changes nodes g (if top then g₃.request memberId .concept cause else g₃)
    split
    · exact hbefore.trans (request_changes hmember₃ rfl)
    · exact hbefore
  have hmember₄ : memberId < g₄.size := by
    show memberId < (if top then g₃.request memberId .concept cause else g₃).size
    split
    · rwa [size_request]
    · exact hmember₃
  split
  · exact hbefore
  · next hfits =>
    -- asking the member to be a concept leaves the scheme a scheme, even if it is the member
    have hkind₃ : g₃.kindOf schemeId = .conceptScheme := by
      rw [kindOf_request hscheme, if_pos rfl]
      exact Kind.after_conceptScheme (by simpa [schemeFits, admits] using hfits)
    have hkind₄ : g₄.kindOf schemeId = .conceptScheme := by
      show (if top then g₃.request memberId .concept cause else g₃).kindOf schemeId = _
      split
      · rw [kindOf_request_concept hmember₃ (by rw [hkind₃]; rfl), hkind₃]
      · exact hkind₃
    split
    · exact hbefore₄
    · next hmemberFit =>
      -- a top concept has been asked to be a concept before
      have htopConcept : top = true → g₄.kindOf memberId = .concept := by
        intro ht
        show (if top then g₃.request memberId .concept cause else g₃).kindOf memberId = _
        rw [if_pos ht, kindOf_request hmember₃, if_pos rfl]
        exact Kind.after_concept (by simpa [memberFits, ht, admits] using hmemberFit)
      exact hbefore₄.tail (.join memberId schemeId top hmember₄ hkind₄ htopConcept)

theorem linkMember_changes {collection member : Node} (h : Indexed g) (hc : collection ∈ nodes)
    (hm : member ∈ nodes) (hshown : g.configuration.collections = true) :
    Changes nodes g (g.linkMember collection member) := by
  unfold linkMember
  extract_lets collectionId g₁ memberId g₂ fits g₃
  have hmember : memberId < g₂.size := idOf_lt_ensure h.ensure
  have hcollection : collectionId < g₂.size := Nat.lt_of_lt_of_le (idOf_lt_ensure h) size_le_ensure
  have hensured : Changes nodes g g₂ :=
    (Relation.ReflTransGen.single (.ensure collection hc)).tail (.ensure member hm)
  have hconsidered : g₂.configuration.considersKind .collection = true := by
    simpa [g₂, g₁, Configuration.considersKind] using hshown
  have hbefore : Changes nodes g g₃ := hensured.trans (request_changes hcollection hconsidered)
  split
  · exact hbefore
  · next hfits =>
    have hkind₃ : (g₃.kindOf collectionId).isCollection = true := by
      rw [kindOf_request hcollection, if_pos rfl]
      exact Kind.after_collection (by simpa [fits, admits] using hfits)
    exact hbefore.tail (.gather collectionId memberId (by rwa [size_request]) hkind₃)

theorem linkMemberList_changes {collection head : Node} (h : Indexed g) (hc : collection ∈ nodes)
    (hshown : g.configuration.collections = true) :
    Changes nodes g (g.linkMemberList collection head) := by
  unfold linkMemberList
  extract_lets id g₁ fits g₂
  have hensured : Changes nodes g g₁ := .single (.ensure collection hc)
  have hconsidered : g₁.configuration.considersKind .orderedCollection = true := by
    simpa [g₁, Configuration.considersKind] using hshown
  have hbefore : Changes nodes g g₂ :=
    hensured.trans (request_changes (idOf_lt_ensure h) hconsidered)
  split
  · exact hbefore
  · next hfits =>
    have hkind₂ : g₂.kindOf id = .orderedCollection := by
      rw [kindOf_request (idOf_lt_ensure h), if_pos rfl]
      exact Kind.after_orderedCollection (by simpa [fits, g₁, id, admits] using hfits)
    split
    · exact hbefore.tail (.retouch id (fun texts => texts) (fun _ => some head) (.inl hkind₂))
    · split
      · exact hbefore
      · exact hbefore.trans (report_changes _)

/-- Taking in a relation makes small changes only. -/
theorem relate_changes {subject object : Node} {r : Rdf.Relation} (h : Indexed g)
    (hs : subject ∈ nodes) (ho : object ∈ nodes) : Changes nodes g (g.relate subject r object) := by
  unfold relate
  split
  · exact ignore_changes
  · next hconsidered =>
    cases r with
    | type => exact linkType_changes h hs
    | broader => exact linkHierarchy_changes h ho hs
    | narrower => exact linkHierarchy_changes h hs ho
    | inScheme => exact linkScheme_changes h hs ho (by simpa [considers] using hconsidered)
    | topConceptOf => exact linkScheme_changes h hs ho (by simpa [considers] using hconsidered)
    | hasTopConcept => exact linkScheme_changes h ho hs (by simpa [considers] using hconsidered)
    | member => exact linkMember_changes h hs ho (by simpa [considers] using hconsidered)
    | memberList => exact linkMemberList_changes h hs (by simpa [considers] using hconsidered)
    | listFirst => exact .single (.remark _ _ _)
    | listRest => exact .single (.remark _ _ _)

/-- A property of graphs that each step of making a link keeps. -/
structure KeptByLinks (P : ResourceGraph → Prop) : Prop where
  ensure : ∀ g n, P g → P (ensure g n)
  request : ∀ g id requested cause, P g → P (request g id requested cause)
  updateLinks : ∀ g id change, P g → P (updateLinks g id change)
  report : ∀ g i, P g → P (report g i)
  linkCell : ∀ g cell slot value, P g → P (linkCell g cell slot value)

/-- One that is also kept when a relation is ignored. -/
structure KeptByRelations (P : ResourceGraph → Prop) : Prop extends KeptByLinks P where
  ignore : ∀ g, P g → P (ignore g)

/-- Whether a relation to a node is heeded: it is considered, and so is the class that it may
name. -/
def heedsRelation (c : Configuration) (r : Rdf.Relation) (object : Node) : Bool :=
  considers c r && (r != .type || (classKind? c object).isSome)

/-- A relation that is not heeded is ignored. -/
theorem relate_of_unheeded {subject object : Node} {r : Rdf.Relation}
    (h : heedsRelation g.configuration r object = false) :
    g.relate subject r object = g.ignore := by
  cases hconsidered : considers g.configuration r with
  | false => simp [relate, hconsidered]
  | true =>
    obtain ⟨rfl, hunusable⟩ : r = .type ∧ classKind? g.configuration object = none := by
      simpa [heedsRelation, hconsidered] using h
    show g.linkType subject object = g.ignore
    rw [linkType, hunusable]

namespace KeptByLinks

variable {P : ResourceGraph → Prop}

/-- Both ends of a link change. -/
theorem link {i j : ResourceId} {change change' : Links → Links} (h : KeptByLinks P) (hg : P g) :
    P ((g.updateLinks i change).updateLinks j change') :=
  h.updateLinks _ _ _ (h.updateLinks _ _ _ hg)

theorem linkHierarchy (h : KeptByLinks P) (hg : P g) (m n : Node) (cause : Rdf.Relation) :
    P (g.linkHierarchy m n cause) := by
  have hasked := h.request _ ((g.ensure m).idOf n) .concept cause
    (h.request _ (g.idOf m) .concept cause (h.ensure _ n (h.ensure _ m hg)))
  dsimp only [ResourceGraph.linkHierarchy]
  split
  · exact h.link hasked
  · exact hasked

theorem linkScheme (h : KeptByLinks P) (hg : P g) (m n : Node) (top : Bool)
    (cause : Rdf.Relation) : P (g.linkScheme m n top cause) := by
  have hasked := h.request _ (g.idOf n) .conceptScheme cause (h.ensure _ m (h.ensure _ n hg))
  have hasked' := h.request _ ((g.ensure n).idOf m) .concept cause hasked
  -- only a top concept is asked to be of a kind itself
  cases top with
  | false =>
    simp only [ResourceGraph.linkScheme, Bool.not_false, Bool.true_or, Bool.not_true,
      Bool.false_eq_true, if_false]
    split
    · exact hasked
    · exact h.link hasked
  | true =>
    simp only [ResourceGraph.linkScheme, Bool.not_true, Bool.false_or, if_true]
    split
    · exact hasked
    · split
      · exact hasked'
      · exact h.link hasked'

theorem linkMember (h : KeptByLinks P) (hg : P g) (m n : Node) : P (g.linkMember m n) := by
  have hasked := h.request _ (g.idOf m) .collection .member (h.ensure _ n (h.ensure _ m hg))
  dsimp only [ResourceGraph.linkMember]
  split
  · exact hasked
  · exact h.link hasked

theorem linkMemberList (h : KeptByLinks P) (hg : P g) (m n : Node) :
    P (g.linkMemberList m n) := by
  have hasked := h.request _ (g.idOf m) .orderedCollection .memberList (h.ensure _ m hg)
  dsimp only [ResourceGraph.linkMemberList]
  split
  · exact hasked
  · split
    · exact h.updateLinks _ _ _ hasked
    · split
      · exact hasked
      · exact h.report _ _ hasked

/-- What links keep is kept by a relation that is heeded. -/
theorem relate (h : KeptByLinks P) (hg : P g) {subject object : Node} {r : Rdf.Relation}
    (hheeded : heedsRelation g.configuration r object = true) : P (g.relate subject r object) := by
  obtain ⟨hconsidered, husable⟩ := Bool.and_eq_true_iff.1 hheeded
  unfold ResourceGraph.relate
  rw [hconsidered]
  cases r with
  | type =>
    obtain ⟨kind, hkind⟩ := Option.isSome_iff_exists.1 husable
    show P (g.linkType subject object)
    rw [linkType, hkind]
    exact h.request _ _ _ _ (h.ensure _ _ hg)
  | broader => exact h.linkHierarchy hg ..
  | narrower => exact h.linkHierarchy hg ..
  | inScheme => exact h.linkScheme hg ..
  | topConceptOf => exact h.linkScheme hg ..
  | hasTopConcept => exact h.linkScheme hg ..
  | member => exact h.linkMember hg ..
  | memberList => exact h.linkMemberList hg ..
  | listFirst => exact h.linkCell _ _ _ _ hg
  | listRest => exact h.linkCell _ _ _ _ hg

end KeptByLinks

/-- What relations keep is kept by each relation, heeded or not. -/
theorem KeptByRelations.relate {P : ResourceGraph → Prop} (h : KeptByRelations P) (hg : P g)
    {subject object : Node} {r : Rdf.Relation} : P (g.relate subject r object) := by
  cases hheeded : heedsRelation g.configuration r object with
  | false =>
    rw [relate_of_unheeded hheeded]
    exact h.ignore g hg
  | true => exact h.toKeptByLinks.relate hg hheeded

/-! ## Statements -/

theorem describe_changes {subject : Node} {p : TextProperty} {l : Literal}
    (hs : subject ∈ nodes) : Changes nodes g (g.describe subject p l) := by
  unfold describe
  exact (Relation.ReflTransGen.single (.ensure subject hs)).tail
    (.retouch _ (fun texts => texts.record g.configuration.primaryLanguage p l) (fun head => head)
      (.inr fun _ => rfl))

/-- The graph that has counted one more statement. -/
def counted (g : ResourceGraph) : ResourceGraph :=
  { g with counters := { g.counters with triples := g.counters.triples + 1 } }

/-- What can become of a graph that has counted a statement: it ignores a predicate that is not in
the vocabulary, relates two nodes, gives a text to a node, records a text where a node is required,
or ignores a node where a text is expected. -/
inductive Accepted (g : ResourceGraph) (t : Triple) : ResourceGraph → Prop where
  | unknown (predicate : Predicate.ofIri? t.predicate = none) : Accepted g t g.ignore
  | related {r : Rdf.Relation} {n : Node}
      (predicate : Predicate.ofIri? t.predicate = some (.relation r))
      (object : t.object = .node n) : Accepted g t (g.relate t.subject r n)
  | described {property : TextProperty} {l : Literal}
      (predicate : Predicate.ofIri? t.predicate = some (.text property))
      (object : t.object = .literal l) : Accepted g t (g.describe t.subject property l)
  | refused {r : Rdf.Relation} {l : Literal}
      (predicate : Predicate.ofIri? t.predicate = some (.relation r))
      (object : t.object = .literal l) :
      Accepted g t (g.report (.literalAsResource t.subject (.relation r) l.value))
  | untold {property : TextProperty} {n : Node}
      (predicate : Predicate.ofIri? t.predicate = some (.text property))
      (object : t.object = .node n) : Accepted g t g.ignore

/-- Every statement finds its rules. -/
theorem exists_accepted (g : ResourceGraph) (t : Triple) :
    ∃ g', g.accept t = .ok g' ∧ Accepted g.counted t g' := by
  unfold accept
  cases hpredicate : Predicate.ofIri? t.predicate with
  | none => exact ⟨_, rfl, .unknown hpredicate⟩
  | some p =>
    cases hobject : t.object with
    | node n =>
      cases p with
      | relation r => exact ⟨_, rfl, .related hpredicate hobject⟩
      | text property => exact ⟨_, rfl, .untold hpredicate hobject⟩
    | literal l =>
      cases p with
      | relation r => exact ⟨_, rfl, .refused hpredicate hobject⟩
      | text property => exact ⟨_, rfl, .described hpredicate hobject⟩

theorem accepted_of_accept {g g' : ResourceGraph} {t : Triple} (htaken : g.accept t = .ok g') :
    Accepted g.counted t g' := by
  obtain ⟨g₁, htaken', haccepted⟩ := exists_accepted g t
  obtain rfl : g₁ = g' := Except.ok.inj (htaken'.symm.trans htaken)
  exact haccepted

/-- What relations keep is kept by taking in a statement, if counting it and changing a text keep it
as well. -/
theorem KeptByRelations.accept {P : ResourceGraph → Prop} (h : KeptByRelations P)
    (hcounted : ∀ g, P g → P (counted g)) (hupdate : ∀ g id change, P g → P (update g id change))
    {g g' : ResourceGraph} {t : Triple} (hg : P g) (htaken : g.accept t = .ok g') : P g' := by
  have hcount := hcounted g hg
  cases accepted_of_accept htaken with
  | unknown => exact h.ignore _ hcount
  | related => exact h.relate hcount
  | described => exact hupdate _ _ _ (h.ensure _ _ hcount)
  | refused => exact h.report _ _ hcount
  | untold => exact h.ignore _ hcount

theorem keptByRelations_configuration (c : Configuration) :
    KeptByRelations fun g => g.configuration = c where
  ensure := fun _ _ hg => configuration_ensure.trans hg
  request := fun g id requested cause hg => by
    rw [request_eq]
    exact hg
  updateLinks := fun _ _ _ hg => hg
  report := fun _ _ hg => hg
  ignore := fun _ hg => hg
  linkCell := fun _ _ _ _ hg => hg

/-- Taking in a statement configures nothing. -/
theorem configuration_accept {g g' : ResourceGraph} {t : Triple} (htaken : g.accept t = .ok g') :
    g'.configuration = g.configuration :=
  (keptByRelations_configuration _).accept (fun _ hg => hg) (fun _ _ _ hg => hg) rfl htaken

theorem frozen_ensure {g : ResourceGraph} {n : Node} : (g.ensure n).frozen = g.frozen := by
  unfold ensure
  split <;> rfl

theorem keptByRelations_frozen (frozen : Bool) : KeptByRelations fun g => g.frozen = frozen where
  ensure := fun _ _ hg => frozen_ensure.trans hg
  request := fun g id requested cause hg => by
    rw [request_eq]
    exact hg
  updateLinks := fun _ _ _ hg => hg
  report := fun _ _ hg => hg
  ignore := fun _ hg => hg
  linkCell := fun _ _ _ _ hg => hg

/-- Taking in a statement finishes nothing. -/
theorem frozen_accept {g g' : ResourceGraph} {t : Triple} (htaken : g.accept t = .ok g') :
    g'.frozen = g.frozen :=
  (keptByRelations_frozen _).accept (fun _ hg => hg) (fun _ _ _ hg => hg) rfl htaken

/-- Taking in a statement makes small changes only. -/
theorem accept_changes (h : Indexed g) (t : Triple) :
    ∃ g', g.accept t = .ok g' ∧ Changes (mentioned t) g g' := by
  obtain ⟨g', htaken, haccepted⟩ := exists_accepted g t
  have hcounted : Changes (mentioned t) g g.counted := .single (.remark _ _ _)
  refine ⟨g', htaken, hcounted.trans ?_⟩
  have hsubject : t.subject ∈ mentioned t := by
    unfold mentioned
    split <;> exact List.mem_cons_self
  cases haccepted with
  | unknown => exact ignore_changes
  | @related r n _ hobject =>
    have hmentions : n ∈ mentioned t := by simp [mentioned, hobject]
    exact relate_changes (h.congr rfl rfl) hsubject hmentions
  | described => exact describe_changes hsubject
  | refused => exact report_changes _
  | untold => exact ignore_changes

end ResourceGraph

end Thesaurus
