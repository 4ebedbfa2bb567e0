import Thesaurus.Proofs.Graph.Renumbering

/-!
# Finishing keeps a graph sound

Each step of `ResourceGraph.finish` rewrites the links of all resources at once. What it does to
links is described here as a function of kinds and links, for which the laws are proved first.

- `Linked.withoutSchemes`, `Linked.rename`: the laws after schemes were taken out of collections,
  and after resources were renumbered.
- `ResourceGraph.exists_finish`: finishing succeeds once and leads to a sound graph.
- `Reachable`, `Reachable.sound`: every graph that calls can lead to is sound.
-/

namespace Thesaurus

open Rdf (Node Triple)

/-! ## Laws -/

/-- The links when schemes are no members: collections have lost their schemes, and schemes are in
no collection. -/
def withoutSchemes (kinds : ResourceId → Kind) (links : ResourceId → Links) (id : ResourceId) :
    Links :=
  if (kinds id).isCollection then
    { links id with
      members := (links id).members.filter fun m => !(kinds m == .conceptScheme)
      orderedMembers :=
        (links id).orderedMembers.map (·.filter fun m => !(kinds m == .conceptScheme)) }
  else if kinds id = .conceptScheme then { links id with inCollections := ∅ }
  else links id

namespace Linked

variable {kinds kinds' : ResourceId → Kind} {links links' : ResourceId → Links}

/-- The members that are left are those that are no schemes. -/
theorem mem_members_withoutSchemes (h : Linked kinds links) {k m : ResourceId} :
    m ∈ (Thesaurus.withoutSchemes kinds links k).members ↔
      m ∈ (links k).members ∧ kinds m ≠ .conceptScheme := by
  by_cases hcollection : (kinds k).isCollection = true
  · rw [Thesaurus.withoutSchemes, if_pos hcollection]
    simp
  · -- what is no collection has no members
    have hnone : m ∉ (links k).members := fun hmem => hcollection (h.collection_kind k m hmem)
    rw [Thesaurus.withoutSchemes, if_neg hcollection]
    split <;> simp [hnone]

theorem mem_inCollections_withoutSchemes {k m : ResourceId} :
    k ∈ (Thesaurus.withoutSchemes kinds links m).inCollections ↔
      k ∈ (links m).inCollections ∧ kinds m ≠ .conceptScheme := by
  by_cases hcollection : (kinds m).isCollection = true
  · have hnotScheme : kinds m ≠ .conceptScheme := by
      intro hscheme
      rw [hscheme] at hcollection
      cases hcollection
    rw [Thesaurus.withoutSchemes, if_pos hcollection]
    simp [hnotScheme]
  · rw [Thesaurus.withoutSchemes, if_neg hcollection]
    by_cases hscheme : kinds m = .conceptScheme
    · simp [hscheme]
    · simp [hscheme]

/-- The laws survive when schemes are taken out of collections. -/
theorem withoutSchemes (h : Linked kinds links) :
    Linked kinds (Thesaurus.withoutSchemes kinds links) := by
  -- all other fields stay as they are
  have hsame : ∀ {α : Type} (f : Links → α),
      (∀ l members ordered, f { l with members := members, orderedMembers := ordered } = f l) →
      (∀ l, f { l with inCollections := ∅ } = f l) →
      ∀ id, f (Thesaurus.withoutSchemes kinds links id) = f (links id) := by
    intro α f hcollection hscheme id
    unfold Thesaurus.withoutSchemes
    split
    · exact hcollection ..
    · split
      · exact hscheme _
      · rfl
  have hnarrower := hsame (·.narrower) (fun _ _ _ => rfl) fun _ => rfl
  have hbroader := hsame (·.broader) (fun _ _ _ => rfl) fun _ => rfl
  have hschemeMembers := hsame (·.schemeMembers) (fun _ _ _ => rfl) fun _ => rfl
  have hinSchemes := hsame (·.inSchemes) (fun _ _ _ => rfl) fun _ => rfl
  have htopConcepts := hsame (·.topConcepts) (fun _ _ _ => rfl) fun _ => rfl
  constructor
  · intro a b
    rw [hnarrower, hbroader]
    exact h.narrower_iff a b
  · intro a b
    rw [hnarrower]
    exact h.narrower_kinds a b
  · intro s m
    rw [hschemeMembers, hinSchemes]
    exact h.schemeMember_iff s m
  · intro s m
    rw [hschemeMembers]
    exact h.scheme_kind s m
  · intro s m
    rw [hschemeMembers, htopConcepts]
    exact h.top_member s m
  · intro s m
    rw [htopConcepts]
    exact h.top_kind s m
  · intro k m
    rw [h.mem_members_withoutSchemes, mem_inCollections_withoutSchemes, h.member_iff k m]
  · intro k m hmem
    exact h.collection_kind k m (h.mem_members_withoutSchemes.1 hmem).1
  · intro k order horder m hm
    unfold Thesaurus.withoutSchemes at horder ⊢
    by_cases hcollection : (kinds k).isCollection = true
    · rw [if_pos hcollection] at horder ⊢
      obtain ⟨before, hbefore, rfl⟩ := Option.map_eq_some_iff.1 horder
      obtain ⟨hmem, hkeep⟩ := List.mem_filter.1 hm
      exact IdSet.mem_filter.2 ⟨h.ordered_member k before hbefore m hmem, hkeep⟩
    · rw [if_neg hcollection] at horder ⊢
      split at horder <;> simp only [*, if_true, if_false] <;>
        exact h.ordered_member k order horder m hm

/-- A set of links holds the new names of what it held for the old name. -/
theorem mem_renamed {newId : ResourceId → Option ResourceId}
    (hlinks : ∀ a a', newId a = some a' → links' a' = (links a).rename newId)
    (hnone : ∀ a', (∀ a, newId a ≠ some a') → links' a' = {}) (f : Links → IdSet)
    (hf : ∀ l, f (l.rename newId) = (f l).filterMap newId) (hempty : f {} = ∅)
    (a' b' : ResourceId) : b' ∈ f (links' a') ↔
      ∃ a b, newId a = some a' ∧ newId b = some b' ∧ b ∈ f (links a) := by
  constructor
  · intro hb'
    by_cases hnamed : ∃ a, newId a = some a'
    · obtain ⟨a, ha⟩ := hnamed
      rw [hlinks a a' ha, hf, IdSet.mem_filterMap] at hb'
      obtain ⟨b, hb, hbb'⟩ := hb'
      exact ⟨a, b, ha, hbb', hb⟩
    · rw [hnone a' fun a ha => hnamed ⟨a, ha⟩, hempty] at hb'
      exact absurd hb' (IdSet.not_mem_empty b')
  · rintro ⟨a, b, ha, hb, hab⟩
    rw [hlinks a a' ha, hf, IdSet.mem_filterMap]
    exact ⟨b, hab, hb⟩

/-- A relation that is stored at both ends still is when the ends have new names. -/
theorem renamed_both {newId : ResourceId → Option ResourceId}
    {p q : ResourceId → ResourceId → Prop} (hpq : ∀ a b, p a b ↔ q b a) (a' b' : ResourceId) :
    (∃ a b, newId a = some a' ∧ newId b = some b' ∧ p a b) ↔
      ∃ b a, newId b = some b' ∧ newId a = some a' ∧ q b a := by
  constructor
  · rintro ⟨a, b, ha, hb, hab⟩
    exact ⟨b, a, hb, ha, (hpq a b).1 hab⟩
  · rintro ⟨b, a, hb, ha, hba⟩
    exact ⟨a, b, ha, hb, (hpq a b).2 hba⟩

/-- The laws survive when resources are renamed and those without a new name are left out. -/
theorem rename (newId : ResourceId → Option ResourceId) (h : Linked kinds links)
    (hkinds : ∀ a a', newId a = some a' → kinds' a' = kinds a)
    (hlinks : ∀ a a', newId a = some a' → links' a' = (links a).rename newId)
    (hnone : ∀ a', (∀ a, newId a ≠ some a') → links' a' = {}) : Linked kinds' links' := by
  -- each field holds the new names of what it held before
  have hnarrower := mem_renamed hlinks hnone (·.narrower) (fun _ => rfl) rfl
  have hbroader := mem_renamed hlinks hnone (·.broader) (fun _ => rfl) rfl
  have hschemeMembers := mem_renamed hlinks hnone (·.schemeMembers) (fun _ => rfl) rfl
  have hinSchemes := mem_renamed hlinks hnone (·.inSchemes) (fun _ => rfl) rfl
  have htopConcepts := mem_renamed hlinks hnone (·.topConcepts) (fun _ => rfl) rfl
  have hmembers := mem_renamed hlinks hnone (·.members) (fun _ => rfl) rfl
  have hinCollections := mem_renamed hlinks hnone (·.inCollections) (fun _ => rfl) rfl
  constructor
  · intro a' b'
    rw [hnarrower, hbroader]
    exact renamed_both h.narrower_iff a' b'
  · intro a' b' hb'
    obtain ⟨a, b, ha, hb, hab⟩ := (hnarrower a' b').1 hb'
    rw [hkinds a a' ha, hkinds b b' hb]
    exact h.narrower_kinds a b hab
  · intro s' m'
    rw [hschemeMembers, hinSchemes]
    exact renamed_both h.schemeMember_iff s' m'
  · intro s' m' hm'
    obtain ⟨s, m, hs, _, hsm⟩ := (hschemeMembers s' m').1 hm'
    rw [hkinds s s' hs]
    exact h.scheme_kind s m hsm
  · intro s' m' hm'
    obtain ⟨s, m, hs, hm, hsm⟩ := (htopConcepts s' m').1 hm'
    exact (hschemeMembers s' m').2 ⟨s, m, hs, hm, h.top_member s m hsm⟩
  · intro s' m' hm'
    obtain ⟨s, m, _, hm, hsm⟩ := (htopConcepts s' m').1 hm'
    rw [hkinds m m' hm]
    exact h.top_kind s m hsm
  · intro k' m'
    rw [hmembers, hinCollections]
    exact renamed_both h.member_iff k' m'
  · intro k' m' hm'
    obtain ⟨k, m, hk, _, hkm⟩ := (hmembers k' m').1 hm'
    rw [hkinds k k' hk]
    exact h.collection_kind k m hkm
  · intro k' order' horder' m' hm'
    -- an id that is nobody's new name has no links, and so no order
    by_cases hnamed : ∃ k, newId k = some k'
    · obtain ⟨k, hk⟩ := hnamed
      rw [hlinks k k' hk] at horder'
      obtain ⟨order, horder, rfl⟩ := Option.map_eq_some_iff.1 horder'
      obtain ⟨m, hm, hmm'⟩ := List.mem_filterMap.1 hm'
      exact (hmembers k' m').2 ⟨k, m, hk, hmm', h.ordered_member k order horder m hm⟩
    · rw [hnone k' fun k hk => hnamed ⟨k, hk⟩] at horder'
      cases horder'

end Linked

/-! ## Graphs -/

/-- Changing all resources leaves kinds alone, if each change does. -/
theorem ResourceGraph.kindOf_map {g g' : ResourceGraph} {change : Resource → Resource}
    (hmap : g'.resources = g.resources.map change) (hkind : ∀ r, (change r).kind = r.kind) :
    g'.kindOf = g.kindOf := by
  funext id
  rw [kindOf, kindOf, hmap, Array.getElem?_map]
  cases g.resources[id]? with
  | none => rfl
  | some r => exact hkind r

namespace Sound

variable {g g' : ResourceGraph}

/-- Only resources, index and configuration matter. -/
theorem congr (h : Sound g) (hresources : g'.resources = g.resources) (hindex : g'.index = g.index)
    (hconfiguration : g'.configuration = g.configuration) : Sound g' :=
  h.of_links (h.indexed.congr hresources hindex)
    (by rw [ResourceGraph.linksOf_congr hresources]; exact h.linked)
    (ResourceGraph.kindOf_congr hresources) hconfiguration

/-- A graph is sound if each resource has new links at most, and the laws hold of the links. -/
theorem of_map {change : Resource → Resource} (h : Sound g)
    (hmap : g'.resources = g.resources.map change) (hindex : g'.index = g.index)
    (hconfiguration : g'.configuration = g.configuration)
    (hid : ∀ r, (change r).id = r.id) (hnode : ∀ r, (change r).node = r.node)
    (hkind : ∀ r, (change r).kind = r.kind) (hlinked : Linked g.kindOf g'.linksOf) : Sound g' := by
  have hindexed : Indexed g' := h.indexed.of_places hindex fun i =>
    ⟨change, by rw [hmap, Array.getElem?_map], fun r => ⟨hid r, hnode r⟩⟩
  exact h.of_links hindexed hlinked (ResourceGraph.kindOf_map hmap hkind) hconfiguration

end Sound

namespace ResourceGraph

variable {g : ResourceGraph}

/-- An accepted order lists members only. -/
theorem mem_of_declaredOrder {collection : Node} {members : IdSet} {elements : List Node}
    {order : List ResourceId} {id : ResourceId}
    (h : (g.declaredOrder collection members elements).order = some order) (hid : id ∈ order) :
    id ∈ members := by
  simp only [declaredOrder] at h
  split at h
  · cases h
    obtain ⟨element, _, hlisted⟩ := List.mem_filterMap.1 hid
    obtain ⟨_, hmem⟩ := Option.filter_eq_some_iff.1 hlisted
    simpa using hmem
  · cases h

/-- The change that reading a member list makes to a resource. -/
def withOrder (g : ResourceGraph) (r : Resource) : Resource :=
  match g.memberOrder? r with
  | some ⟨some order, _⟩ => { r with links := { r.links with orderedMembers := some order } }
  | _ => r

theorem withOrder_cases (r : Resource) : g.withOrder r = r ∨
    ∃ order, (∀ m ∈ order, m ∈ r.links.members) ∧
      g.withOrder r = { r with links := { r.links with orderedMembers := some order } } := by
  unfold withOrder
  split
  · next order issues hfound =>
    refine .inr ⟨order, fun m hm => ?_, rfl⟩
    unfold memberOrder? at hfound
    split at hfound
    · obtain ⟨head, _, hdeclared⟩ := Option.map_eq_some_iff.1 hfound
      have haccepted : (g.declaredOrder r.node r.links.members
          (g.cells.resolve r.node head).elements).order = some order :=
        congrArg DeclaredOrder.order hdeclared
      exact mem_of_declaredOrder haccepted hm
    · cases hfound
  · exact .inl rfl

theorem get_readMemberLists {i : ResourceId} :
    g.readMemberLists.resources[i]? = g.resources[i]?.map g.withOrder :=
  Array.getElem?_map ..

/-- Reading member lists changes orders only. -/
theorem linksOf_readMemberLists : g.readMemberLists.linksOf = fun id =>
    { g.linksOf id with orderedMembers := (g.readMemberLists.linksOf id).orderedMembers } := by
  funext id
  rw [linksOf, linksOf, get_readMemberLists]
  cases g.resources[id]? with
  | none => rfl
  | some r =>
    show (g.withOrder r).links =
      { r.links with orderedMembers := (g.withOrder r).links.orderedMembers }
    rcases withOrder_cases (g := g) r with hsame | ⟨order, _, heq⟩
    · rw [hsame]
    · rw [heq]

/-- The orders that are read list members. -/
theorem mem_of_readMemberLists (h : Sound g) {k m : ResourceId} {order : List ResourceId}
    (horder : (g.readMemberLists.linksOf k).orderedMembers = some order) (hm : m ∈ order) :
    m ∈ (g.linksOf k).members := by
  rw [linksOf, get_readMemberLists] at horder
  cases hfound : g.resources[k]? with
  | none =>
    rw [hfound] at horder
    cases horder
  | some r =>
    rw [hfound] at horder
    change (g.withOrder r).links.orderedMembers = some order at horder
    rcases withOrder_cases (g := g) r with hsame | ⟨order', hmembers, heq⟩
    · rw [hsame, ← linksOf_eq hfound] at horder
      exact h.linked.ordered_member k order horder m hm
    · rw [heq] at horder
      cases horder
      rw [linksOf_eq hfound]
      exact hmembers m hm

/-- Whatever does not look at the order is kept when the member list of a resource is read. -/
theorem withOrder_keeps {α : Type} (f : Resource → α)
    (hf : ∀ r order, f { r with links := { r.links with orderedMembers := order } } = f r)
    (r : Resource) : f (g.withOrder r) = f r := by
  rcases withOrder_cases (g := g) r with hsame | ⟨order, _, heq⟩
  · rw [hsame]
  · rw [heq]
    exact hf r (some order)

theorem kindOf_readMemberLists : g.readMemberLists.kindOf = g.kindOf :=
  kindOf_map rfl (withOrder_keeps (·.kind) fun _ _ => rfl)

theorem sound_readMemberLists (h : Sound g) : Sound g.readMemberLists := by
  have hlinked : Linked g.kindOf g.readMemberLists.linksOf := by
    rw [linksOf_readMemberLists]
    exact h.linked.relist (fun id => (g.linksOf id).memberList) _ fun k order horder m hm =>
      mem_of_readMemberLists h horder hm
  exact h.of_map rfl rfl rfl (withOrder_keeps (·.id) fun _ _ => rfl)
    (withOrder_keeps (·.node) fun _ _ => rfl) (withOrder_keeps (·.kind) fun _ _ => rfl) hlinked

theorem kindOf_dropSchemes : g.dropSchemesFromCollections.kindOf = g.kindOf :=
  kindOf_map rfl fun _ => rfl

/-- Taking the schemes out of the collections is what the laws were proved for. -/
theorem linksOf_dropSchemes :
    g.dropSchemesFromCollections.linksOf = withoutSchemes g.kindOf g.linksOf := by
  funext id
  rw [linksOf, dropSchemesFromCollections, Array.getElem?_map]
  unfold withoutSchemes
  cases hfound : g.resources[id]? with
  | none =>
    rw [linksOf, kindOf, hfound]
    rfl
  | some r =>
    rw [linksOf_eq hfound, kindOf_eq hfound]
    rfl

theorem sound_dropSchemes (h : Sound g) : Sound g.dropSchemesFromCollections := by
  refine h.of_map rfl rfl rfl (fun _ => rfl) (fun _ => rfl) (fun _ => rfl) ?_
  rw [linksOf_dropSchemes]
  exact h.linked.withoutSchemes

/-- A resource that is left stands at its new id. -/
theorem get_prune_newId (h : Sound g) {a a' : ResourceId} (ha : g.newId a = some a') :
    ∃ r, g.resources[a]? = some r ∧ g.prune.resources[a']? = some (g.renumbered a' r) := by
  obtain ⟨r, hr, _⟩ := newId_eq_some.1 ha
  exact ⟨r, hr, (get_prune h).2 ⟨a, r, hr, ha, rfl⟩⟩

theorem kindOf_prune (h : Sound g) {a a' : ResourceId} (ha : g.newId a = some a') :
    g.prune.kindOf a' = g.kindOf a := by
  obtain ⟨r, hr, hr'⟩ := get_prune_newId h ha
  rw [kindOf_eq hr, kindOf_eq hr']
  rfl

theorem linksOf_prune (h : Sound g) {a a' : ResourceId} (ha : g.newId a = some a') :
    g.prune.linksOf a' = (g.linksOf a).rename g.newId := by
  obtain ⟨r, hr, hr'⟩ := get_prune_newId h ha
  rw [linksOf_eq hr, linksOf_eq hr']
  rfl

/-- What is no new id has no links. -/
theorem linksOf_prune_none (h : Sound g) {a' : ResourceId} (hnone : ∀ a, g.newId a ≠ some a') :
    g.prune.linksOf a' = {} := by
  cases hfound : g.prune.resources[a']? with
  | none => rw [linksOf, hfound]; rfl
  | some r' =>
    obtain ⟨a, _, _, ha, _⟩ := (get_prune h).1 hfound
    exact absurd ha (hnone a)

theorem configuration_prune : g.prune.configuration = g.configuration := by
  unfold prune
  split <;> rfl

/-- What stands at an id after pruning stood at the old id before, so laws go back to laws. -/
theorem sound_prune (h : Sound g) : Sound g.prune where
  indexed := indexed_prune h
  linked := h.linked.rename g.newId (fun _ _ ha => kindOf_prune h ha)
    (fun _ _ ha => linksOf_prune h ha) fun _ hnone => linksOf_prune_none h hnone
  considered := fun a' => by
    rw [configuration_prune]
    cases hfound : g.prune.resources[a']? with
    | none => simp [kindOf, hfound, Configuration.considersKind]
    | some r' =>
      obtain ⟨a, r, hr, _, rfl⟩ := (get_prune h).1 hfound
      have hconsidered := h.considered a
      rw [kindOf_eq hr] at hconsidered
      rw [kindOf_eq hfound]
      exact hconsidered

/-- Pruning looks at resources only, and puts resources, index and a counter in their places. What
leaves these places alone may come before or after. -/
theorem prune_replaced (replace : ResourceGraph → ResourceGraph)
    (hresources : (replace g).resources = g.resources)
    (hput : ∀ resources index pruned,
      { replace g with
        resources := resources
        index := index
        counters := { (replace g).counters with pruned := pruned } } =
      replace
        { g with
          resources := resources
          index := index
          counters := { g.counters with pruned := pruned } }) :
    (replace g).prune = replace g.prune := by
  simp only [prune, newIds, size, hresources]
  split
  · rfl
  · exact hput _ _ _

/-- The graph, closed to statements. -/
def closed (g : ResourceGraph) : ResourceGraph :=
  { g with frozen := true }

/-- Resources of unknown kind are left out only where kinds are filtered. It makes no difference
whether this is done before or after the graph is closed. -/
theorem freeze_eq : g.freeze =
    if g.configuration.filtersByType then g.prune.closed else g.closed := by
  have hprune : g.closed.prune = g.prune.closed :=
    prune_replaced closed rfl fun _ _ _ => rfl
  show (if g.configuration.filtersByType then g.closed.prune else g.closed) = _
  rw [hprune]

theorem sound_closed (h : Sound g) : Sound g.closed :=
  h.congr rfl rfl rfl

theorem sound_freeze (h : Sound g) : Sound g.freeze := by
  rw [freeze_eq]
  split
  · exact sound_closed (sound_prune h)
  · exact sound_closed h

theorem sound_completed (h : Sound g) : Sound g.completed :=
  (sound_freeze (sound_dropSchemes (sound_readMemberLists h))).congr rfl rfl rfl

/-! ## Nodes, configuration and state -/

theorem configuration_freeze : g.freeze.configuration = g.configuration := by
  rw [freeze_eq]
  split
  · exact configuration_prune
  · rfl

theorem configuration_completed : g.completed.configuration = g.configuration :=
  configuration_freeze

theorem issues_prune : g.prune.issues = g.issues := by
  unfold prune
  split <;> rfl

theorem issues_freeze : g.freeze.issues = g.issues := by
  rw [freeze_eq]
  split
  · exact issues_prune
  · rfl

theorem frozen_freeze : g.freeze.frozen = true := by
  rw [freeze_eq]
  split <;> rfl

/-- Resources that are left stand for nodes of resources before. -/
theorem node_of_freeze (h : Sound g) {r : Resource} (hr : r ∈ g.freeze.resources) :
    ∃ s ∈ g.resources, s.node = r.node := by
  rw [freeze_eq] at hr
  split at hr
  · obtain ⟨j, hj⟩ := Array.mem_iff_getElem?.1 hr
    obtain ⟨i, s, hs, _, rfl⟩ := (get_prune h).1 hj
    exact ⟨s, Array.mem_of_getElem? hs, rfl⟩
  · exact ⟨r, hr, rfl⟩

theorem node_of_completed (h : Sound g) {r : Resource} (hr : r ∈ g.completed.resources) :
    ∃ s ∈ g.resources, s.node = r.node := by
  obtain ⟨s, hs, heq⟩ :=
    node_of_freeze (sound_dropSchemes (sound_readMemberLists h)) (r := r) hr
  obtain ⟨t, ht, rfl⟩ := Array.mem_map.1 hs
  obtain ⟨u, hu, rfl⟩ := Array.mem_map.1 ht
  have hsame : (g.withOrder u).node = u.node := withOrder_keeps (·.node) (fun _ _ => rfl) u
  exact ⟨u, hu, hsame.symm.trans heq⟩

/-- A graph that is open can be finished. -/
theorem finish_eq (hopen : g.frozen = false) : g.finish = .ok g.completed := by
  rw [finish, if_neg (by simp [hopen])]

/-- Only an open graph is finished. -/
theorem of_finish {f : ResourceGraph} (hfinished : g.finish = .ok f) :
    g.frozen = false ∧ f = g.completed := by
  rw [finish] at hfinished
  split at hfinished
  · cases hfinished
  · next hopen => exact ⟨Bool.eq_false_iff.2 hopen, (Except.ok.inj hfinished).symm⟩

/-- A graph can be finished once, and what is left is a sound graph of the same configuration. -/
theorem exists_finish (h : Sound g) (hfrozen : g.frozen = false) :
    ∃ f, g.finish = .ok f ∧ Sound f ∧ f.configuration = g.configuration ∧ f.frozen = true ∧
      ∀ r ∈ f.resources, ∃ s ∈ g.resources, s.node = r.node := by
  exact ⟨g.completed, finish_eq hfrozen, sound_completed h, configuration_completed, frozen_freeze,
    fun r hr => node_of_completed h hr⟩

end ResourceGraph

/-! ## Reachable graphs -/

/-- The graphs that taking in statements and finishing can lead to. -/
inductive Reachable : ResourceGraph → Prop where
  | new (c : Configuration) : Reachable (.new c)
  | ingest {g g' : ResourceGraph} (t : Triple) (before : Reachable g)
      (taken : g.ingest t = .ok g') : Reachable g'
  | finish {g g' : ResourceGraph} (before : Reachable g) (finished : g.finish = .ok g') :
      Reachable g'

/-- Taking in several statements leads from a reachable graph to another. -/
theorem Reachable.ingestAll {g g' : ResourceGraph} {triples : List Triple} (h : Reachable g)
    (htaken : g.ingestAll triples = .ok g') : Reachable g' := by
  induction triples generalizing g with
  | nil =>
    cases htaken
    exact h
  | cons t rest ih =>
    obtain ⟨g₁, hfirst, hothers⟩ := ResourceGraph.of_ingestAll_cons htaken
    exact ih (h.ingest t hfirst) hothers

/-- Every graph that can be reached is sound. -/
theorem Reachable.sound {g : ResourceGraph} (h : Reachable g) : Sound g := by
  induction h with
  | new c => exact Sound.new c
  | ingest t _ htaken ih =>
    exact ih.changes (ResourceGraph.changes_of_ingest ih htaken)
  | finish _ hfinished ih =>
    obtain ⟨_, rfl⟩ := ResourceGraph.of_finish hfinished
    exact ResourceGraph.sound_completed ih

end Thesaurus
