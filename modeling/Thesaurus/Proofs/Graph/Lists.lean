import Thesaurus.Proofs.Graph.Finish
import Thesaurus.Proofs.Listing

/-!
# Member lists and orders

Statements only say where a member list starts. The order of the members is read when the graph is
finished, and what is taken out of a collection afterwards is taken out of its order too.

- `ResourceGraph.ListsOrdered`: only ordered collections have member lists.
- `ResourceGraph.Unread`, `ResourceGraph.OrdersExact`: no order has been read yet, and every order
  lists each member just once.
- `ResourceGraph.MembersFit`: only concepts and collections are members.
- `ResourceGraph.ordersExact_completed`, `ResourceGraph.membersFit_completed`: what finishing
  achieves.
- `Reachable.lists`, `Reachable.ordersExact`: what holds of lists and orders in reachable graphs.
-/

namespace Thesaurus

open Rdf (Node Triple)

namespace ResourceGraph

/-- Whether only ordered collections have member lists. -/
def ListsOrdered (g : ResourceGraph) : Prop :=
  ∀ id, (g.linksOf id).memberList ≠ none → g.kindOf id = .orderedCollection

/-- Whether no order of members has been read yet. -/
def Unread (g : ResourceGraph) : Prop :=
  ∀ id, (g.linksOf id).orderedMembers = none

/-- Whether every order lists each member of its collection once, and nothing else. -/
def OrdersExact (g : ResourceGraph) : Prop :=
  ∀ k order, (g.linksOf k).orderedMembers = some order → order.Perm (g.linksOf k).members.toList

/-- Whether only concepts and collections are members of collections. -/
def MembersFit (g : ResourceGraph) : Prop :=
  ∀ k m, m ∈ (g.linksOf k).members → g.kindOf m = .concept ∨ (g.kindOf m).isCollection = true

theorem Unread.ordersExact {g : ResourceGraph} (h : g.Unread) : g.OrdersExact := by
  intro k order horder
  rw [h k] at horder
  cases horder

/-- What an update of links leaves alone. -/
theorem field_updateLinks {α : Type} {g : ResourceGraph} {id other : ResourceId} (f : Links → α)
    {change : Links → Links} (hf : ∀ l, f (change l) = f l) :
    f ((g.updateLinks id change).linksOf other) = f (g.linksOf other) := by
  rw [linksOf, updateLinks, get_update]
  split
  · rw [linksOf]
    cases g.resources[other]? with
    | none => rfl
    | some r => exact hf r.links
  · rfl

end ResourceGraph

/-! ## Taking in statements -/

namespace Change

variable {g g' : ResourceGraph} {nodes : List Node} {id : ResourceId}

/-- Small changes read no orders. -/
theorem orderedMembers_eq (h : Change nodes g g') :
    (g'.linksOf id).orderedMembers = (g.linksOf id).orderedMembers := by
  have htwice : ∀ {a b : ResourceId} {c d : Links → Links},
      (∀ l, (c l).orderedMembers = l.orderedMembers) →
      (∀ l, (d l).orderedMembers = l.orderedMembers) →
      (((g.updateLinks a c).updateLinks b d).linksOf id).orderedMembers =
        (g.linksOf id).orderedMembers := fun hc hd =>
    (ResourceGraph.field_updateLinks (·.orderedMembers) hd).trans
      (ResourceGraph.field_updateLinks (·.orderedMembers) hc)
  cases h with
  | ensure n hn => rw [ResourceGraph.linksOf_ensure]
  | settle id requested kind hid hset hconsidered =>
    rw [ResourceGraph.settle, ResourceGraph.linksOf_setKind]
  | narrow upper lower hupper hlower => exact htwice (fun _ => rfl) fun _ => rfl
  | join member scheme top hmember hscheme htop => exact htwice (fun _ => rfl) fun _ => rfl
  | gather collection member hmember hcollection => exact htwice (fun _ => rfl) fun _ => rfl
  | retouch id texts head hhead => rw [ResourceGraph.linksOf_retouch]
  | remark cells issues counters => rfl

/-- Only ordered collections are given the head of a member list. -/
theorem memberList_eq (h : Change nodes g g') (hkind : g.kindOf id ≠ .orderedCollection) :
    (g'.linksOf id).memberList = (g.linksOf id).memberList := by
  have htwice : ∀ {a b : ResourceId} {c d : Links → Links},
      (∀ l, (c l).memberList = l.memberList) → (∀ l, (d l).memberList = l.memberList) →
      (((g.updateLinks a c).updateLinks b d).linksOf id).memberList =
        (g.linksOf id).memberList := fun hc hd =>
    (ResourceGraph.field_updateLinks (·.memberList) hd).trans
      (ResourceGraph.field_updateLinks (·.memberList) hc)
  cases h with
  | ensure n hn => rw [ResourceGraph.linksOf_ensure]
  | settle id requested kind hid hset hconsidered =>
    rw [ResourceGraph.settle, ResourceGraph.linksOf_setKind]
  | narrow upper lower hupper hlower => exact htwice (fun _ => rfl) fun _ => rfl
  | join member scheme top hmember hscheme htop => exact htwice (fun _ => rfl) fun _ => rfl
  | gather collection member hmember hcollection => exact htwice (fun _ => rfl) fun _ => rfl
  | retouch touched texts head hhead =>
    rw [ResourceGraph.linksOf, ResourceGraph.retouch, ResourceGraph.get_update]
    split
    · next hsame =>
      -- the head of an ordered collection may change, but this is no ordered collection
      subst hsame
      rw [ResourceGraph.linksOf]
      cases g.resources[id]? with
      | none => rfl
      | some r => exact (hhead.resolve_left hkind) r.links.memberList
    · rfl
  | remark cells issues counters => rfl

/-- Ordered collections stay what they are. -/
theorem kind_kept (h : Change nodes g g') (hkind : g.kindOf id = .orderedCollection) :
    g'.kindOf id = .orderedCollection := by
  cases h with
  | ensure n hn => rwa [ResourceGraph.kindOf_ensure]
  | settle settled requested kind hid hset hconsidered =>
    rw [ResourceGraph.settle, ResourceGraph.kindOf_setKind kind hid]
    split
    · next hsame =>
      -- no transition leads away from ordered collections
      rw [← hsame, hkind] at hset
      rcases (Linked.set_cases hset).2 with hunknown | ⟨hcollection', _⟩
      · cases hunknown
      · cases hcollection'
    · exact hkind
  | narrow upper lower hupper hlower => simpa [ResourceGraph.narrow] using hkind
  | join member scheme top hmember hscheme htop => simpa [ResourceGraph.join] using hkind
  | gather collection member hmember hcollection => simpa [ResourceGraph.gather] using hkind
  | retouch touched texts head hhead => rwa [ResourceGraph.kindOf_retouch]
  | remark cells issues counters => exact hkind

theorem unread (h : Change nodes g g') (hg : g.Unread) : g'.Unread := by
  intro id
  rw [h.orderedMembers_eq]
  exact hg id

theorem listsOrdered (h : Change nodes g g') (hg : g.ListsOrdered) : g'.ListsOrdered := by
  intro id hlist
  by_cases hkind : g.kindOf id = .orderedCollection
  · exact h.kind_kept hkind
  · rw [h.memberList_eq hkind] at hlist
    exact absurd (hg id hlist) hkind

end Change

/-- Taking in a statement reads no orders, and gives only ordered collections member lists. -/
theorem Changes.lists {g g' : ResourceGraph} {nodes : List Node} (h : Changes nodes g g')
    (hlists : g.ListsOrdered) (hunread : g.Unread) : g'.ListsOrdered ∧ g'.Unread := by
  induction h with
  | refl => exact ⟨hlists, hunread⟩
  | tail _ hlast ih => exact ⟨hlast.listsOrdered ih.1, hlast.unread ih.2⟩

namespace ResourceGraph

variable {g : ResourceGraph}

theorem lists_new (c : Configuration) : (new c).ListsOrdered ∧ (new c).Unread := by
  refine ⟨fun id hlist => ?_, fun id => ?_⟩
  · simp [linksOf, new] at hlist
  · simp [linksOf, new]

/-! ## Reading orders -/

/-- An order that is accepted lists each member once. -/
theorem declaredOrder_perm {collection : Node} {members : IdSet} {elements : List Node}
    {order : List ResourceId} (hg : Indexed g) (hnodup : elements.Nodup)
    (h : (g.declaredOrder collection members elements).order = some order) :
    order.Perm members.toList := by
  simp only [declaredOrder] at h
  split at h
  · next hagrees =>
    cases h
    obtain ⟨_, hnothingMissing⟩ := Bool.and_eq_true_iff.1 hagrees
    -- an id is that of one node, so that no id is listed for two elements
    have hlistedOnce : (elements.filterMap (g.listedMember? members)).Nodup :=
      hnodup.filterMap fun m n id hm hn => eq_of_lookup hg (Option.filter_eq_some_iff.1 hm).1
        (Option.filter_eq_some_iff.1 hn).1
    refine (List.perm_ext_iff_of_nodup hlistedOnce members.nodup).2 fun id => ⟨fun hid => ?_, ?_⟩
    · obtain ⟨element, _, hlisted⟩ := List.mem_filterMap.1 hid
      obtain ⟨_, hmem⟩ := Option.filter_eq_some_iff.1 hlisted
      exact IdSet.mem_def.1 (by simpa using hmem)
    · intro hid
      have hmissing := List.isEmpty_iff.1 hnothingMissing
      by_contra hnotListed
      have hmem : id ∈ members.toList.filter
          fun m => !(elements.filterMap (g.listedMember? members)).contains m :=
        List.mem_filter.2 ⟨hid, by simpa using hnotListed⟩
      rw [hmissing] at hmem
      cases hmem
  · cases h

/-- What reading a member list makes of a resource without an order. -/
theorem withOrder_exact {r : Resource} {order : List ResourceId} (hg : Indexed g)
    (hnone : r.links.orderedMembers = none)
    (horder : (g.withOrder r).links.orderedMembers = some order) :
    order.Perm r.links.members.toList := by
  unfold withOrder at horder
  split at horder
  · next read issues hfound =>
    cases horder
    unfold memberOrder? at hfound
    split at hfound
    · obtain ⟨head, _, hdeclared⟩ := Option.map_eq_some_iff.1 hfound
      exact declaredOrder_perm hg (nodup_eraseDups _) (congrArg DeclaredOrder.order hdeclared)
    · cases hfound
  · rw [hnone] at horder
    cases horder

theorem members_readMemberLists {k : ResourceId} :
    (g.readMemberLists.linksOf k).members = (g.linksOf k).members := by
  rw [linksOf_readMemberLists]

theorem ordersExact_readMemberLists (hg : Indexed g) (h : g.Unread) :
    g.readMemberLists.OrdersExact := by
  intro k order horder
  rw [members_readMemberLists]
  rw [linksOf, get_readMemberLists] at horder
  cases hfound : g.resources[k]? with
  | none =>
    rw [hfound] at horder
    cases horder
  | some r =>
    rw [hfound] at horder
    have hnone := h k
    rw [linksOf_eq hfound] at hnone ⊢
    exact withOrder_exact hg hnone horder

/-! ## Leaving resources out -/

theorem ordersExact_dropSchemes (h : g.OrdersExact) :
    g.dropSchemesFromCollections.OrdersExact := by
  intro k order horder
  rw [linksOf_dropSchemes] at horder ⊢
  unfold withoutSchemes at horder ⊢
  by_cases hcollection : (g.kindOf k).isCollection = true
  · rw [if_pos hcollection] at horder ⊢
    obtain ⟨before, hbefore, rfl⟩ := Option.map_eq_some_iff.1 horder
    exact (h k before hbefore).filter _
  · rw [if_neg hcollection] at horder ⊢
    split at horder <;> simp only [*, if_true, if_false] <;> exact h k order horder

/-- Renaming a set renames its listing, if different members have different names. -/
theorem toList_filterMap_perm {rename : ResourceId → Option ResourceId} {s : IdSet}
    (hinj : ∀ a b c, rename a = some c → rename b = some c → a = b) :
    (s.filterMap rename).toList.Perm (s.toList.filterMap rename) := by
  have hrenamed : (s.toList.filterMap rename).Nodup :=
    s.nodup.filterMap fun a b c ha hb => hinj a b c ha hb
  refine (List.perm_ext_iff_of_nodup (IdSet.nodup _) hrenamed).2 fun id => ?_
  exact IdSet.mem_ofList

theorem ordersExact_prune (hg : Sound g) (h : g.OrdersExact) : g.prune.OrdersExact := by
  intro k' order' horder'
  by_cases hnamed : ∃ k, g.newId k = some k'
  · obtain ⟨k, hk⟩ := hnamed
    rw [linksOf_prune hg hk] at horder' ⊢
    obtain ⟨order, horder, rfl⟩ := Option.map_eq_some_iff.1 horder'
    exact ((h k order horder).filterMap _).trans
      (toList_filterMap_perm fun _ _ _ ha hb => newId_inj ha hb).symm
  · rw [linksOf_prune_none hg fun k hk => hnamed ⟨k, hk⟩] at horder'
    cases horder'

theorem listsOrdered_prune (hg : Sound g) (h : g.ListsOrdered) : g.prune.ListsOrdered := by
  intro k' hlist
  by_cases hnamed : ∃ k, g.newId k = some k'
  · obtain ⟨k, hk⟩ := hnamed
    rw [linksOf_prune hg hk] at hlist
    rw [kindOf_prune hg hk]
    exact h k hlist
  · rw [linksOf_prune_none hg fun k hk => hnamed ⟨k, hk⟩] at hlist
    exact absurd rfl hlist

/-! ## Finishing -/

/-- The resources of a finished graph: those of known kind, where kinds are filtered. -/
theorem resources_completed : g.completed.resources =
    if g.configuration.filtersByType then
      g.readMemberLists.dropSchemesFromCollections.prune.resources
    else g.readMemberLists.dropSchemesFromCollections.resources := by
  show g.readMemberLists.dropSchemesFromCollections.freeze.resources = _
  have hsame : g.readMemberLists.dropSchemesFromCollections.configuration = g.configuration := rfl
  rw [freeze_eq, hsame]
  split <;> rfl

/-- What holds both before and after resources are left out holds of the finished graph, if it
depends on the resources only. -/
theorem completed_rule {P : ResourceGraph → Prop}
    (hcongr : ∀ a b : ResourceGraph, b.resources = a.resources → P a → P b)
    (hdrop : P g.readMemberLists.dropSchemesFromCollections)
    (hprune : P g.readMemberLists.dropSchemesFromCollections.prune) : P g.completed := by
  have hresources := g.resources_completed
  split at hresources
  · exact hcongr _ _ hresources hprune
  · exact hcongr _ _ hresources hdrop

theorem ordersExact_completed (h : Sound g) (hunread : g.Unread) : g.completed.OrdersExact := by
  have hdrop := ordersExact_dropSchemes (ordersExact_readMemberLists h.indexed hunread)
  refine completed_rule (P := OrdersExact) ?_ hdrop
    (ordersExact_prune (sound_dropSchemes (sound_readMemberLists h)) hdrop)
  intro a b hsame hP k order horder
  rw [linksOf_congr hsame] at horder ⊢
  exact hP k order horder

theorem listsOrdered_dropSchemes (h : g.ListsOrdered) :
    g.readMemberLists.dropSchemesFromCollections.ListsOrdered := by
  intro id hlist
  rw [kindOf_dropSchemes, kindOf_readMemberLists]
  refine h id ?_
  rw [linksOf_dropSchemes, linksOf_readMemberLists] at hlist
  unfold withoutSchemes at hlist
  split at hlist
  · exact hlist
  · split at hlist <;> exact hlist

theorem listsOrdered_completed (h : Sound g) (hlists : g.ListsOrdered) :
    g.completed.ListsOrdered := by
  have hdrop := listsOrdered_dropSchemes hlists
  refine completed_rule (P := ListsOrdered) ?_ hdrop
    (listsOrdered_prune (sound_dropSchemes (sound_readMemberLists h)) hdrop)
  intro a b hsame hP id hlist
  rw [linksOf_congr hsame] at hlist
  rw [kindOf_congr hsame]
  exact hP id hlist

/-- Where collections are considered, resources of unknown kind are left out. -/
theorem filtersByType_of_member (h : Sound g) {k m : ResourceId}
    (hm : m ∈ (g.linksOf k).members) : g.configuration.filtersByType = true := by
  have hconsidered := h.considered k
  have hcollection := h.linked.collection_kind k m hm
  have hshown : g.configuration.collections = true := by
    cases hkind : g.kindOf k <;>
      simp_all [Kind.isCollection, Configuration.considersKind]
  simp [Configuration.filtersByType, hshown]

/-- What is left after pruning is of known kind, and members were members before. -/
theorem mem_members_prune (hg : Sound g) {k' m' : ResourceId}
    (hm' : m' ∈ (g.prune.linksOf k').members) :
    ∃ k m, m ∈ (g.linksOf k).members ∧ g.newId m = some m' := by
  by_cases hnamed : ∃ k, g.newId k = some k'
  · obtain ⟨k, hk⟩ := hnamed
    rw [linksOf_prune hg hk] at hm'
    obtain ⟨m, hm, hmm'⟩ := IdSet.mem_filterMap.1 hm'
    exact ⟨k, m, hm, hmm'⟩
  · rw [linksOf_prune_none hg fun k hk => hnamed ⟨k, hk⟩] at hm'
    exact absurd hm' (IdSet.not_mem_empty m')

theorem membersFit_completed (h : Sound g) : g.completed.MembersFit := by
  have hsound := sound_dropSchemes (sound_readMemberLists h)
  intro k' m' hm'
  -- there are members, so that collections are considered and unknown resources are left out
  have hfilters : g.configuration.filtersByType = true := by
    rw [← configuration_completed]
    exact filtersByType_of_member (sound_completed h) hm'
  have hresources := g.resources_completed
  rw [if_pos hfilters] at hresources
  rw [linksOf_congr hresources] at hm'
  rw [kindOf_congr hresources]
  obtain ⟨k, m, hm, hmm'⟩ := mem_members_prune hsound hm'
  have hnotScheme : g.kindOf m ≠ .conceptScheme := by
    rw [linksOf_dropSchemes] at hm
    rw [← kindOf_readMemberLists]
    exact ((sound_readMemberLists h).linked.mem_members_withoutSchemes.1 hm).2
  have hknown : (g.kindOf m).isKnown = true := by
    obtain ⟨r, hr, hknown, _⟩ := newId_eq_some.1 hmm'
    rw [← kindOf_readMemberLists, ← kindOf_dropSchemes, kindOf_eq hr]
    exact hknown
  rw [kindOf_prune hsound hmm', kindOf_dropSchemes, kindOf_readMemberLists]
  cases hkind : g.kindOf m <;> simp_all [Kind.isKnown, Kind.isCollection]

end ResourceGraph

/-! ## Reachable graphs -/

/-- Orders are exact in every reachable graph, and there are none before it is finished. -/
theorem Reachable.lists {g : ResourceGraph} (h : Reachable g) :
    g.ListsOrdered ∧ g.OrdersExact ∧ (g.frozen = false → g.Unread) := by
  induction h with
  | new c =>
    obtain ⟨hlists, hunread⟩ := ResourceGraph.lists_new c
    exact ⟨hlists, hunread.ordersExact, fun _ => hunread⟩
  | ingest t hbefore htaken ih =>
    obtain ⟨hlists, _, hunread⟩ := ih
    have hchanges := ResourceGraph.changes_of_ingest hbefore.sound htaken
    obtain ⟨hlists', hunread'⟩ := hchanges.lists hlists (hunread (ResourceGraph.of_ingest htaken).1)
    exact ⟨hlists', hunread'.ordersExact, fun _ => hunread'⟩
  | finish hbefore hfinished ih =>
    obtain ⟨hlists, _, hunread⟩ := ih
    obtain ⟨hopen, rfl⟩ := ResourceGraph.of_finish hfinished
    have hexact := ResourceGraph.ordersExact_completed hbefore.sound (hunread hopen)
    refine ⟨ResourceGraph.listsOrdered_completed hbefore.sound hlists, hexact, fun hthawed => ?_⟩
    -- a finished graph is closed, whatever may be said of an open one
    exact absurd (ResourceGraph.frozen_freeze.symm.trans hthawed) (by decide)

theorem Reachable.ordersExact {g : ResourceGraph} (h : Reachable g) : g.OrdersExact :=
  h.lists.2.1

end Thesaurus
