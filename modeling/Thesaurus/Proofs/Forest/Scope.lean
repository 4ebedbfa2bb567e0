import Thesaurus.Forest.Context
import Thesaurus.Proofs.Graph.Sound

/-!
# What a path allows

A node of a forest is reached through the resources above it, its path, which is listed from the
innermost one outwards. The nearest scheme or collection on the path decides which concepts can be
shown there, and which of their narrower concepts are shown below them.

- `nearestContext?`: the nearest scheme or collection on a path.
- `ResourceGraph.InScope`: whether a concept can be shown at the end of a path.
- `ResourceGraph.AllowsBelow`: whether a resource can be shown right below another.
- `ResourceGraph.Fits`, `ResourceGraph.Trail`: whether a resource can be shown at the end of a path,
  and whether a path is one along which resources can be shown.
- `ResourceGraph.narrowerIn`: the narrower concepts that are shown below a concept.
- `isTopOn`: whether a resource is a declared top concept where it is shown.
- `ResourceGraph.contextOf_eq`, `ResourceGraph.contextsOn_nearest`: the contexts of a sound graph.
-/

namespace Thesaurus

/-- Whether resources of the kind gather others, and so are contexts. -/
def Kind.gathers : Kind → Bool
  | conceptScheme | collection | orderedCollection => true
  | concept | unknown => false

namespace Kind

variable {k : Kind}

theorem gathers_of_isCollection (h : k.isCollection = true) : k.gathers = true := by
  cases k <;> trivial

theorem isKnown_of_isCollection (h : k.isCollection = true) : k.isKnown = true := by
  cases k <;> trivial

theorem not_concept_of_isCollection (h : k.isCollection = true) : k ≠ .concept := by
  rintro rfl
  cases h

end Kind

namespace Resource

/-- The declared members of a scheme or collection. -/
def declaredMembers (r : Resource) : IdSet :=
  if r.kind = .conceptScheme then r.links.schemeMembers else r.links.members

theorem declaredMembers_of_isCollection {r : Resource} (h : r.kind.isCollection = true) :
    r.declaredMembers = r.links.members := by
  refine if_neg fun hscheme => ?_
  rw [hscheme] at h
  cases h

/-- Whether the resource is an ordered collection whose declared order was accepted. -/
def hasOrder (r : Resource) : Bool :=
  r.kind == .orderedCollection && r.links.orderedMembers.isSome

end Resource

/-- The nearest scheme or collection on a path. -/
def nearestContext? (path : List Resource) : Option Resource :=
  path.find? (·.kind.gathers)

/-- Whether the nearest scheme or collection on a path is a scheme that declares the resource as a
top concept. -/
def isTopOn (path : List Resource) (id : ResourceId) : Bool :=
  (nearestContext? path).any fun k => k.kind == .conceptScheme && decide (id ∈ k.links.topConcepts)

theorem nearestContext?_cons {r : Resource} {above : List Resource} :
    nearestContext? (r :: above) = if r.kind.gathers then some r else nearestContext? above := by
  unfold nearestContext?
  by_cases hgathers : r.kind.gathers = true
  · rw [List.find?_cons_of_pos (by simp [hgathers]), if_pos hgathers]
  · rw [List.find?_cons_of_neg (by simp [hgathers]), if_neg hgathers]

theorem mem_of_nearestContext? {k : Resource} {path : List Resource}
    (h : nearestContext? path = some k) : k ∈ path ∧ k.kind.gathers = true := by
  have hgathers := List.find?_some h
  exact ⟨List.mem_of_find?_eq_some h, hgathers⟩

namespace ResourceGraph

/-- Whether the resource stands in the graph at its id. -/
def Holds (g : ResourceGraph) (r : Resource) : Prop :=
  g.resources[r.id]? = some r

/-- Whether a resource is shown outside all contexts. Where schemes are shown, the resources that
belong to one are not. -/
def shownOutside (g : ResourceGraph) (id : ResourceId) : Bool :=
  !(g.configuration.conceptSchemes && !(g.linksOf id).inSchemes.isEmpty)

/-- Whether a concept can be shown at the end of a path. In a context it has to be a member, right
below the context or below a broader concept that is a member too. -/
def InScope (g : ResourceGraph) (path : List Resource) (concept : Resource) : Prop :=
  match nearestContext? path with
  | none => g.shownOutside concept.id = true
  | some k => concept.id ∈ k.declaredMembers ∧ ∃ parent ∈ path.head?,
      parent = k ∨ (parent.id ∈ concept.links.broader ∧ parent.id ∈ k.declaredMembers)

/-- Whether a resource can be shown right below another, whatever is above that one: narrower
concepts below a concept, the concepts of a scheme below it, and members below a collection. -/
def AllowsBelow (g : ResourceGraph) (parent : Resource) (id : ResourceId) : Prop :=
  match parent.kind with
  | .unknown => False
  | .concept => id ∈ parent.links.narrower
  | .conceptScheme => id ∈ parent.links.schemeMembers ∧ g.kindOf id = .concept
  | .collection | .orderedCollection => id ∈ parent.links.members

/-- Whether a resource can be shown at the end of a path: it stands in the graph, a concept is in
scope here, and the resource right above leads to it. -/
structure Fits (g : ResourceGraph) (path : List Resource) (r : Resource) : Prop where
  holds : g.Holds r
  in_scope : r.kind = .concept → g.InScope path r
  led : ∀ parent ∈ path.head?, g.AllowsBelow parent r.id

/-- Whether each resource of a path can be shown at the end of what is above it. -/
def Trail (g : ResourceGraph) : List Resource → Prop
  | [] => True
  | r :: above => g.Fits above r ∧ g.Trail above

/-- The narrower concepts that are shown below a concept at the end of a path. In a context these
are the members, and none where the context lists its members in order. -/
def narrowerIn (g : ResourceGraph) (path : List Resource) (concept : Resource) :
    List ResourceId :=
  match nearestContext? path with
  | none => concept.links.narrower.toList.filter g.shownOutside
  | some k =>
    if k.hasOrder then []
    else concept.links.narrower.toList.filter fun id => decide (id ∈ k.declaredMembers)

/-- The context that a scheme or collection is. -/
def contextOf (g : ResourceGraph) (r : Resource) : Context where
  id := r.id
  members := r.declaredMembers.filter (g.kindOf · == .concept)
  tops :=
    if r.kind = .conceptScheme then
      r.links.topConcepts.inter (r.declaredMembers.filter (g.kindOf · == .concept))
    else ∅
  flat := r.hasOrder

/-- The context that a resource is, if it is a scheme or collection. -/
def contextOf? (g : ResourceGraph) (r : Resource) : Option Context :=
  if r.kind.gathers then some (g.contextOf r) else none

/-- The contexts on a path. -/
def contextsOn (g : ResourceGraph) : (path : List Resource) → OpenContexts
  | [] => fun _ => none
  | r :: above => (g.contextsOn above).enter (g.contextOf? r)

variable {g : ResourceGraph} {r k : Resource} {path : List Resource} {id : ResourceId}

/-- Nothing is shown below a resource of unknown kind. -/
theorem AllowsBelow.isKnown (h : g.AllowsBelow r id) : r.kind.isKnown = true := by
  unfold AllowsBelow at h
  cases hkind : r.kind with
  | unknown => simp [hkind] at h
  | _ => rfl

/-! ## Resources of a sound graph -/

theorem Holds.lt_size (h : g.Holds r) : r.id < g.size :=
  ResourceGraph.lt_size h

theorem Holds.kindOf (h : g.Holds r) : g.kindOf r.id = r.kind :=
  kindOf_eq h

theorem Holds.linksOf (h : g.Holds r) : g.linksOf r.id = r.links :=
  linksOf_eq h

theorem holds_of_get (h : Indexed g) (hr : g.resources[id]? = some r) : g.Holds r := by
  have hsame : r.id = id := h.id_eq id r hr
  rw [Holds, hsame, hr]

theorem holds_of_mem (h : Indexed g) (hr : r ∈ g.resources.toList) : g.Holds r := by
  obtain ⟨i, hi⟩ := mem_resources_iff.1 hr
  exact holds_of_get h hi

/-- Every id of the graph has its resource. -/
theorem exists_held (h : Indexed g) (hid : id < g.size) : ∃ r, g.Holds r ∧ r.id = id := by
  obtain ⟨r, hfound⟩ := exists_resource hid
  exact ⟨r, holds_of_get h hfound, h.id_eq id r hfound⟩

theorem Holds.narrower_lt (hr : g.Holds r) (h : Sound g) (hid : id ∈ r.links.narrower) :
    id < g.size := by
  rw [← hr.linksOf] at hid
  exact h.narrower_lt hid

theorem Holds.broader_lt (hr : g.Holds r) (h : Sound g) (hid : id ∈ r.links.broader) :
    id < g.size := by
  rw [← hr.linksOf] at hid
  exact h.broader_lt hid

theorem Holds.eq (hr : g.Holds r) (hk : g.Holds k) (h : r.id = k.id) : r = k := by
  rw [Holds, h, hk, Option.some.injEq] at hr
  exact hr.symm

/-- Declared members are resources. -/
theorem declaredMember_lt (h : Sound g) (hr : g.Holds r) (hid : id ∈ r.declaredMembers) :
    id < g.size := by
  unfold Resource.declaredMembers at hid
  rw [← hr.linksOf] at hid
  split at hid
  · exact h.schemeMember_lt hid
  · exact h.member_lt hid

/-- Only schemes have top concepts. -/
theorem top_lawful (h : Sound g) (hr : g.Holds r) (hid : id ∈ r.links.topConcepts) :
    id ∈ r.links.schemeMembers ∧ g.kindOf id = .concept := by
  rw [← hr.linksOf] at hid ⊢
  exact ⟨h.linked.top_member r.id id hid, h.linked.top_kind r.id id hid⟩

/-- The concepts below a concept are narrower, and concepts. -/
theorem mem_narrowerIn (h : Sound g) (hr : g.Holds r) (hid : id ∈ g.narrowerIn path r) :
    id ∈ r.links.narrower ∧ g.kindOf id = .concept := by
  have hnarrower : id ∈ r.links.narrower := by
    unfold narrowerIn at hid
    split at hid
    · exact (List.mem_filter.1 hid).1
    · split at hid
      · cases hid
      · exact (List.mem_filter.1 hid).1
  have hlinked : id ∈ (g.linksOf r.id).narrower := by rwa [hr.linksOf]
  exact ⟨hnarrower, (h.linked.narrower_kinds r.id id hlinked).2⟩

/-- No concept is shown twice below another. -/
theorem narrowerIn_nodup : (g.narrowerIn path r).Nodup := by
  have hlisted := r.links.narrower.nodup
  unfold narrowerIn
  split
  · exact hlisted.filter _
  · split
    · exact List.nodup_nil
    · exact hlisted.filter _

/-! ## Contexts of a sound graph -/

theorem mem_contextOf : id ∈ (g.contextOf r).members ↔
    id ∈ r.declaredMembers ∧ g.kindOf id = .concept := by
  simp [contextOf]

/-- A context knows the top concepts that its scheme declares. -/
theorem isTop_contextOf (h : Sound g) (hr : g.Holds r) : (g.contextOf r).isTop id =
    (r.kind == .conceptScheme && decide (id ∈ r.links.topConcepts)) := by
  unfold Context.isTop contextOf
  by_cases hscheme : r.kind = .conceptScheme
  · have hmembers : r.declaredMembers = r.links.schemeMembers := if_pos hscheme
    -- the context keeps top concepts that are members and concepts, which they all are
    have hlawful : id ∈ r.links.topConcepts →
        id ∈ r.links.schemeMembers ∧ g.kindOf id = .concept := top_lawful h hr
    simp only [hscheme, if_true, IdSet.mem_inter, IdSet.mem_filter, hmembers]
    simpa using hlawful
  · simp [hscheme]

theorem conceptsAmong_eq {ids : IdSet} (hids : ∀ id ∈ ids, id < g.size) :
    Context.conceptsAmong g ids = .ok (ids.filter (g.kindOf · == .concept)) := by
  rw [Context.conceptsAmong, requireAll_ok hids]

/-- A scheme or collection of a sound graph is a context. -/
theorem contextOf_eq (h : Sound g) (hr : g.Holds r) (hk : r.kind.gathers = true) :
    Context.of g r = .ok (g.contextOf r) := by
  have hinside : ∀ id ∈ r.declaredMembers, id < g.size := fun _ hid => declaredMember_lt h hr hid
  have hmembers := conceptsAmong_eq hinside
  unfold Resource.declaredMembers at hmembers
  unfold Context.of contextOf Resource.declaredMembers Resource.hasOrder
  cases hkind : r.kind with
  | unknown => simp [hkind, Kind.gathers] at hk
  | concept => simp [hkind, Kind.gathers] at hk
  | conceptScheme =>
    rw [hkind, if_pos rfl] at hmembers
    simp [hmembers]
  | collection =>
    rw [hkind, if_neg (by decide)] at hmembers
    simp [hmembers]
  | orderedCollection =>
    rw [hkind, if_neg (by decide)] at hmembers
    simp [hmembers]

/-- The nearest scheme or collection is found by its id, since it is the innermost of the open
contexts. -/
theorem contextsOn_nearest (hnearest : nearestContext? path = some k) :
    g.contextsOn path k.id = some (g.contextOf k) := by
  induction path with
  | nil => cases hnearest
  | cons r above ih =>
    rw [nearestContext?_cons] at hnearest
    rw [contextsOn, contextOf?]
    by_cases hgathers : r.kind.gathers = true
    · rw [if_pos hgathers, Option.some.injEq] at hnearest
      subst hnearest
      rw [if_pos hgathers]
      exact if_pos rfl
    · rw [if_neg hgathers] at hnearest ⊢
      exact ih hnearest

end ResourceGraph

end Thesaurus
