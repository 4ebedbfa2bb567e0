import Thesaurus.Proofs.Graph.Change

/-!
# Sound graphs

Before it is finished, a graph that has taken in any statements is sound: its index and its
resources agree, and kinds and links keep the laws of `Linked`.

- `Sound`: the invariant.
- `Sound.change`, `Sound.changes`: small changes keep it.
- `ResourceGraph.exists_ingestAll`: taking in statements succeeds and leads to a sound graph, whose
  nodes are those of the statements.
-/

namespace Thesaurus

open Rdf (Node Triple)

/-- What holds of every graph that has taken in statements: resources are where their ids and the
index say, kinds and links keep their laws, and every kind is one that the configuration
considers. -/
structure Sound (g : ResourceGraph) : Prop where
  indexed : Indexed g
  linked : Linked g.kindOf g.linksOf
  considered : ∀ id, g.configuration.considersKind (g.kindOf id) = true

namespace ResourceGraph

variable {g : ResourceGraph}

theorem linksOf_narrow {upper lower : ResourceId} (hupper : upper < g.size)
    (hlower : lower < g.size) :
    (g.narrow upper lower).linksOf = narrowed upper lower g.linksOf := by
  funext id
  rw [narrow, linksOf_updateLinks _ (by simpa using hlower), linksOf_updateLinks _ hupper,
    linksOf_updateLinks _ hupper]
  by_cases hu : id = upper <;> by_cases hl : id = lower <;> simp_all [narrowed]

theorem linksOf_join {member scheme : ResourceId} {top : Bool} (hmember : member < g.size)
    (hscheme : scheme < g.size) :
    (g.join member scheme top).linksOf = joined member scheme top g.linksOf := by
  funext id
  rw [join, linksOf_updateLinks _ (by simpa using hscheme), linksOf_updateLinks _ hmember,
    linksOf_updateLinks _ hmember]
  by_cases hm : id = member <;> by_cases hs : id = scheme <;> simp_all [joined]

theorem linksOf_gather {collection member : ResourceId} (hcollection : collection < g.size)
    (hmember : member < g.size) :
    (g.gather collection member).linksOf = gathered collection member g.linksOf := by
  funext id
  rw [gather, linksOf_updateLinks _ (by simpa using hmember), linksOf_updateLinks _ hcollection,
    linksOf_updateLinks _ hcollection]
  by_cases hc : id = collection <;> by_cases hm : id = member <;> simp_all [gathered]

/-- Only the head of the member list may differ. -/
theorem linksOf_retouch {id : ResourceId} {texts : Texts → Texts}
    {head : Option Node → Option Node} :
    (g.retouch id texts head).linksOf = fun other =>
      { g.linksOf other with
        memberList := ((g.retouch id texts head).linksOf other).memberList } := by
  funext other
  rw [linksOf, linksOf, retouch, get_update]
  split <;> cases g.resources[other]? <;> rfl

theorem kindOf_retouch {id : ResourceId} {texts : Texts → Texts}
    {head : Option Node → Option Node} : (g.retouch id texts head).kindOf = g.kindOf :=
  kindOf_update fun _ => rfl

end ResourceGraph

/-- All ids that the links of a resource name. -/
def Links.ids (l : Links) : List ResourceId :=
  l.broader.toList ++ l.narrower.toList ++ l.members.toList ++ l.orderedMembers.getD [] ++
    l.inSchemes.toList ++ l.inCollections.toList ++ l.schemeMembers.toList ++ l.topConcepts.toList

namespace Sound

variable {g g' : ResourceGraph} {nodes : List Node}

theorem new (c : Configuration) : Sound (.new c) where
  indexed := Indexed.new c
  linked := by
    have hnoKind : (ResourceGraph.new c).kindOf = fun _ => .unknown := by
      funext id
      simp [ResourceGraph.kindOf, ResourceGraph.new]
    have hnoLinks : (ResourceGraph.new c).linksOf = fun _ => {} := by
      funext id
      simp [ResourceGraph.linksOf, ResourceGraph.new]
    rw [hnoKind, hnoLinks]
    exact Linked.start
  considered := by
    intro id
    simp [ResourceGraph.kindOf, ResourceGraph.new, Configuration.considersKind]

/-- A graph is sound if its resources are in place and it has the kinds and links of a sound one. -/
theorem of_links (h : Sound g) (hindexed : Indexed g') (hlinked : Linked g.kindOf g'.linksOf)
    (hkinds : g'.kindOf = g.kindOf) (hconfiguration : g'.configuration = g.configuration) :
    Sound g' where
  indexed := hindexed
  linked := hkinds ▸ hlinked
  considered := fun id => by
    rw [hkinds, hconfiguration]
    exact h.considered id

theorem ensure {n : Node} (h : Sound g) : Sound (g.ensure n) := by
  have hkinds : (g.ensure n).kindOf = g.kindOf := funext fun _ => ResourceGraph.kindOf_ensure
  have hlinks : (g.ensure n).linksOf = g.linksOf := funext fun _ => ResourceGraph.linksOf_ensure
  exact h.of_links h.indexed.ensure (hlinks ▸ h.linked) hkinds ResourceGraph.configuration_ensure

theorem settle {id : ResourceId} {requested kind : Kind} (h : Sound g) (hid : id < g.size)
    (hset : (g.kindOf id).transition requested = .set kind)
    (hconsidered : g.configuration.considersKind kind = true) : Sound (g.settle id kind) := by
  have hkinds : (g.settle id kind).kindOf = Function.update g.kindOf id kind := by
    funext other
    rw [ResourceGraph.settle, ResourceGraph.kindOf_setKind kind hid, Function.update_apply]
  have hlinks : (g.settle id kind).linksOf = g.linksOf :=
    funext fun _ => ResourceGraph.linksOf_setKind kind
  refine ⟨h.indexed.update (fun _ => rfl) (fun _ => rfl), ?_, ?_⟩
  · rw [hkinds, hlinks]
    exact h.linked.settle hset
  · intro other
    rw [hkinds, Function.update_apply]
    split
    · exact hconsidered
    · exact h.considered other

theorem narrow {upper lower : ResourceId} (h : Sound g) (hupper : g.kindOf upper = .concept)
    (hlower : g.kindOf lower = .concept) : Sound (g.narrow upper lower) := by
  have hupperIn : upper < g.size := ResourceGraph.lt_size_of_kindOf (by simp [hupper])
  have hlowerIn : lower < g.size := ResourceGraph.lt_size_of_kindOf (by simp [hlower])
  refine h.of_links ?_ ?_ (funext fun _ => by simp [ResourceGraph.narrow]) rfl
  · exact (h.indexed.updateLinks _).updateLinks _
  · rw [ResourceGraph.linksOf_narrow hupperIn hlowerIn]
    exact h.linked.narrowed hupper hlower

theorem join {member scheme : ResourceId} {top : Bool} (h : Sound g) (hmember : member < g.size)
    (hscheme : g.kindOf scheme = .conceptScheme) (htop : top = true → g.kindOf member = .concept) :
    Sound (g.join member scheme top) := by
  have hschemeIn : scheme < g.size := ResourceGraph.lt_size_of_kindOf (by simp [hscheme])
  refine h.of_links ?_ ?_ (funext fun _ => by simp [ResourceGraph.join]) rfl
  · exact (h.indexed.updateLinks _).updateLinks _
  · rw [ResourceGraph.linksOf_join hmember hschemeIn]
    exact h.linked.joined hscheme htop

theorem gather {collection member : ResourceId} (h : Sound g) (hmember : member < g.size)
    (hcollection : (g.kindOf collection).isCollection = true) :
    Sound (g.gather collection member) := by
  have hcollectionIn : collection < g.size := by
    refine ResourceGraph.lt_size_of_kindOf fun hunknown => ?_
    rw [hunknown] at hcollection
    cases hcollection
  refine h.of_links ?_ ?_ (funext fun _ => by simp [ResourceGraph.gather]) rfl
  · exact (h.indexed.updateLinks _).updateLinks _
  · rw [ResourceGraph.linksOf_gather hcollectionIn hmember]
    exact h.linked.gathered hcollection

theorem retouch {id : ResourceId} {texts : Texts → Texts} {head : Option Node → Option Node}
    (h : Sound g) : Sound (g.retouch id texts head) := by
  refine h.of_links (h.indexed.update (fun _ => rfl) fun _ => rfl) ?_
    ResourceGraph.kindOf_retouch rfl
  rw [ResourceGraph.linksOf_retouch]
  exact h.linked.relist _ (fun other => (g.linksOf other).orderedMembers) h.linked.ordered_member

/-- Every small change keeps a graph sound. -/
theorem change (h : Sound g) (hchange : Change nodes g g') : Sound g' := by
  cases hchange with
  | ensure n hn => exact h.ensure
  | settle id requested kind hid hset hconsidered => exact h.settle hid hset hconsidered
  | narrow upper lower hupper hlower => exact h.narrow hupper hlower
  | join member scheme top hmember hscheme htop => exact h.join hmember hscheme htop
  | gather collection member hmember hcollection => exact h.gather hmember hcollection
  | retouch id texts head hhead => exact h.retouch
  | remark cells issues counters => exact ⟨h.indexed.congr rfl rfl, h.linked, h.considered⟩

/-- So do several of them. -/
theorem changes (h : Sound g) (hchanges : Changes nodes g g') : Sound g' := by
  induction hchanges with
  | refl => exact h
  | tail _ hlast ih => exact ih.change hlast

/-! ## Ids in links -/

/-- What has links is a resource. -/
theorem lt_size_of_mem {f : Links → IdSet} {a b : ResourceId} (hf : f {} = ∅)
    (h : b ∈ f (g.linksOf a)) : a < g.size := by
  refine ResourceGraph.lt_size_of_linksOf fun hnone => ?_
  rw [hnone, hf] at h
  exact absurd h (IdSet.not_mem_empty b)

theorem narrower_lt {a b : ResourceId} (h : Sound g) (hb : b ∈ (g.linksOf a).narrower) :
    b < g.size :=
  lt_size_of_mem (f := (·.broader)) rfl ((h.linked.narrower_iff a b).1 hb)

theorem broader_lt {a b : ResourceId} (h : Sound g) (hb : b ∈ (g.linksOf a).broader) :
    b < g.size :=
  lt_size_of_mem (f := (·.narrower)) rfl ((h.linked.narrower_iff b a).2 hb)

theorem schemeMember_lt {s m : ResourceId} (h : Sound g) (hm : m ∈ (g.linksOf s).schemeMembers) :
    m < g.size :=
  lt_size_of_mem (f := (·.inSchemes)) rfl ((h.linked.schemeMember_iff s m).1 hm)

theorem member_lt {k m : ResourceId} (h : Sound g) (hm : m ∈ (g.linksOf k).members) :
    m < g.size :=
  lt_size_of_mem (f := (·.inCollections)) rfl ((h.linked.member_iff k m).1 hm)

theorem inScheme_lt {s m : ResourceId} (h : Sound g) (hs : s ∈ (g.linksOf m).inSchemes) :
    s < g.size :=
  lt_size_of_mem (f := (·.schemeMembers)) rfl ((h.linked.schemeMember_iff s m).2 hs)

theorem inCollection_lt {k m : ResourceId} (h : Sound g) (hk : k ∈ (g.linksOf m).inCollections) :
    k < g.size :=
  lt_size_of_mem (f := (·.members)) rfl ((h.linked.member_iff k m).2 hk)

/-- Links lead to resources, since the resources they lead to have links back. -/
theorem ids_lt (h : Sound g) {i : ResourceId} {r : Resource}
    (hr : g.resources[i]? = some r) :
    ∀ id ∈ r.links.ids, id < g.size := by
  have hlinks : r.links = g.linksOf i := (ResourceGraph.linksOf_eq hr).symm
  rw [hlinks]
  intro id hid
  simp only [Links.ids, List.mem_append, ← IdSet.mem_def] at hid
  rcases hid with ((((((hid | hid) | hid) | hid) | hid) | hid) | hid) | hid
  · exact h.broader_lt hid
  · exact h.narrower_lt hid
  · exact h.member_lt hid
  · cases horder : (g.linksOf i).orderedMembers with
    | none =>
      rw [horder] at hid
      cases hid
    | some ids =>
      rw [horder] at hid
      exact h.member_lt (h.linked.ordered_member i ids horder id hid)
  · exact h.inScheme_lt hid
  · exact h.inCollection_lt hid
  · exact h.schemeMember_lt hid
  · exact h.schemeMember_lt (h.linked.top_member i id hid)

end Sound

/-! ## Nodes, configuration and state -/

namespace Change

variable {g g' : ResourceGraph} {nodes : List Node}

theorem configuration (h : Change nodes g g') : g'.configuration = g.configuration := by
  cases h with
  | ensure n hn => exact ResourceGraph.configuration_ensure
  | _ => rfl

/-- Small changes do not finish a graph. -/
theorem frozen (h : Change nodes g g') : g'.frozen = g.frozen := by
  cases h with
  | ensure n hn => exact ResourceGraph.frozen_ensure
  | _ => rfl

/-- Updates keep the nodes of all resources. -/
theorem node_of_update {id i : ResourceId} {change : Resource → Resource} {r : Resource}
    (hr : (g.update id change).resources[i]? = some r) (hnode : ∀ s, (change s).node = s.node) :
    ∃ s, g.resources[i]? = some s ∧ s.node = r.node := by
  rw [ResourceGraph.get_update] at hr
  split at hr
  · obtain ⟨s, hs, rfl⟩ := Option.map_eq_some_iff.1 hr
    exact ⟨s, hs, (hnode s).symm⟩
  · exact ⟨r, hr, rfl⟩

theorem node_of_updateLinks {id i : ResourceId} {change : Links → Links} {r : Resource}
    (hr : (g.updateLinks id change).resources[i]? = some r) :
    ∃ s, g.resources[i]? = some s ∧ s.node = r.node :=
  node_of_update hr fun _ => rfl

/-- A resource after a small change stands for a node of the change or of a resource before. -/
theorem node {i : ResourceId} {r : Resource} (h : Change nodes g g')
    (hr : g'.resources[i]? = some r) : r.node ∈ nodes ∨ ∃ s ∈ g.resources, s.node = r.node := by
  -- two updates in a row, of which the second may be idle
  have hupdated : ∀ {a b : ResourceId} {c d : Links → Links},
      ((g.updateLinks a c).updateLinks b d).resources[i]? = some r →
        ∃ s ∈ g.resources, s.node = r.node := by
    intro a b c d hr
    obtain ⟨s, hs, heq⟩ := node_of_updateLinks hr
    obtain ⟨t, ht, heq'⟩ := node_of_updateLinks hs
    exact ⟨t, Array.mem_of_getElem? ht, heq'.trans heq⟩
  cases h with
  | ensure n hn =>
    rw [ResourceGraph.get_ensure] at hr
    split at hr
    · cases hr
      exact .inl hn
    · exact .inr ⟨r, Array.mem_of_getElem? hr, rfl⟩
  | settle id requested kind hid hset hconsidered =>
    obtain ⟨s, hs, heq⟩ := node_of_update hr fun _ => rfl
    exact .inr ⟨s, Array.mem_of_getElem? hs, heq⟩
  | narrow upper lower hupper hlower => exact .inr (hupdated hr)
  | join member scheme top hmember hscheme htop => exact .inr (hupdated hr)
  | gather collection member hmember hcollection => exact .inr (hupdated hr)
  | retouch id texts head hhead =>
    obtain ⟨s, hs, heq⟩ := node_of_update hr fun _ => rfl
    exact .inr ⟨s, Array.mem_of_getElem? hs, heq⟩
  | remark cells issues counters => exact .inr ⟨r, Array.mem_of_getElem? hr, rfl⟩

end Change

/-- Small changes keep the configuration and the state, and add resources for their nodes only. -/
theorem Changes.keeps {g g' : ResourceGraph} {nodes : List Node} (h : Changes nodes g g') :
    g'.configuration = g.configuration ∧ g'.frozen = g.frozen ∧
      ∀ r ∈ g'.resources, r.node ∈ nodes ∨ ∃ s ∈ g.resources, s.node = r.node := by
  induction h with
  | refl => exact ⟨rfl, rfl, fun r hr => .inr ⟨r, hr, rfl⟩⟩
  | tail _ hlast ih =>
    obtain ⟨hconfiguration, hfrozen, hnodes⟩ := ih
    refine ⟨hlast.configuration.trans hconfiguration, hlast.frozen.trans hfrozen, fun r hr => ?_⟩
    obtain ⟨i, hi⟩ := Array.mem_iff_getElem?.1 hr
    rcases hlast.node hi with hmem | ⟨s, hs, heq⟩
    · exact .inl hmem
    · exact heq ▸ hnodes s hs

/-! ## Taking in statements -/

namespace ResourceGraph

/-- Only an open graph takes in a statement. -/
theorem of_ingest {g g' : ResourceGraph} {t : Triple} (htaken : g.ingest t = .ok g') :
    g.frozen = false ∧ g.accept t = .ok g' := by
  rw [ingest] at htaken
  split at htaken
  · cases htaken
  · next hopen => exact ⟨Bool.eq_false_iff.2 hopen, htaken⟩

/-- What a sound graph becomes when it takes in a statement. -/
theorem changes_of_ingest {g g' : ResourceGraph} {t : Triple} (h : Sound g)
    (htaken : g.ingest t = .ok g') : Changes (mentioned t) g g' := by
  obtain ⟨g₁, haccepted, hchanges⟩ := accept_changes h.indexed t
  obtain rfl : g₁ = g' := Except.ok.inj (haccepted.symm.trans (of_ingest htaken).2)
  exact hchanges

/-- Statements are taken in one after the other. -/
theorem of_ingestAll_cons {g g' : ResourceGraph} {t : Triple} {rest : List Triple}
    (htaken : g.ingestAll (t :: rest) = .ok g') :
    ∃ g₁, g.ingest t = .ok g₁ ∧ g₁.ingestAll rest = .ok g' := by
  rw [ingestAll] at htaken
  split at htaken
  · cases htaken
  · next g₁ hfirst => exact ⟨g₁, hfirst, htaken⟩

/-- An open graph takes in any statement. -/
theorem exists_ingest {g : ResourceGraph} (t : Triple) (hfrozen : g.frozen = false) :
    ∃ g', g.ingest t = .ok g' := by
  rw [ingest, if_neg (by simp [hfrozen])]
  obtain ⟨g', haccepted, _⟩ := exists_accepted g t
  exact ⟨g', haccepted⟩

/-- Statements are taken in without a defect as long as the graph is not finished. -/
theorem exists_ingestAll {g : ResourceGraph} (triples : List Triple) (h : Sound g)
    (hfrozen : g.frozen = false) :
    ∃ g', g.ingestAll triples = .ok g' ∧ Sound g' ∧ g'.configuration = g.configuration ∧
      g'.frozen = false ∧
      ∀ r ∈ g'.resources, r.node ∈ triples.flatMap mentioned ∨
        ∃ s ∈ g.resources, s.node = r.node := by
  induction triples generalizing g with
  | nil => exact ⟨g, rfl, h, rfl, hfrozen, fun r hr => .inr ⟨r, hr, rfl⟩⟩
  | cons t rest ih =>
    obtain ⟨g₁, hingested⟩ := exists_ingest t hfrozen
    have hchanges := changes_of_ingest h hingested
    obtain ⟨hconfiguration, hstate, hnodes⟩ := hchanges.keeps
    obtain ⟨g₂, htaken, hsound, hconfiguration₂, hfrozen₂, hnodes₂⟩ :=
      ih (h.changes hchanges) (hstate.trans hfrozen)
    refine ⟨g₂, ?_, hsound, hconfiguration₂.trans hconfiguration, hfrozen₂, fun r hr => ?_⟩
    · rw [ingestAll, hingested]
      exact htaken
    · rcases hnodes₂ r hr with hmem | ⟨s, hs, heq⟩
      · exact .inl (List.mem_append_right _ hmem)
      · rcases hnodes s hs with hmem | hbefore
        · exact .inl (List.mem_append_left _ (heq ▸ hmem))
        · exact .inr (heq ▸ hbefore)

/-- Taking in statements neither configures nor finishes a graph. -/
theorem ingestAll_keeps {c : Configuration} {triples : List Triple} {g : ResourceGraph}
    (htaken : (new c).ingestAll triples = .ok g) : g.configuration = c ∧ g.frozen = false := by
  obtain ⟨g', htaken', _, hconfiguration, hfrozen, _⟩ :=
    exists_ingestAll triples (Sound.new c) rfl
  rw [htaken] at htaken'
  cases htaken'
  exact ⟨hconfiguration, hfrozen⟩

end ResourceGraph

end Thesaurus
