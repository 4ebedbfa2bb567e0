import Thesaurus.Proofs.Graph.Mismatches

/-!
# What finishing a graph finds

Three of the steps that finish a graph compare what was stated and record what does not fit. They
change what the later ones read: schemes leave the collections, and resources are renumbered. What
they record is nevertheless what was wrong with the graph before, each thing once.

- `ListsOnce`: a list of all that has a property, without repetitions.
- `ResourceGraph.Disagrees`, `ResourceGraph.Misplaces`, `ResourceGraph.TopsInside`: what is wrong.
- `ListsOnce.flatMap`: findings that are gathered resource by resource.
- `Finds`, `finish_finds`: finishing records just what is wrong, and what is wrong with lists.
-/

namespace Thesaurus

open Rdf (Node Triple)

/-- Whether a list holds just what has a property, each once. -/
structure ListsOnce {α : Type} (l : List α) (p : α → Prop) : Prop where
  nodup : l.Nodup
  mem_iff : ∀ a, a ∈ l ↔ p a

theorem ListsOnce.congr {α : Type} {l : List α} {p q : α → Prop} (h : ListsOnce l p)
    (hsame : ∀ a, p a ↔ q a) : ListsOnce l q :=
  ⟨h.nodup, fun a => (h.mem_iff a).trans (hsame a)⟩

/-! ## Findings -/

namespace Issue

/-- The collection whose list disagrees with its members, if this is the issue. -/
def mismatch? : Issue → Option Node
  | .orderedMembersMismatch collection _ _ => some collection
  | _ => none

/-- The collection and the scheme in it, if this is the issue. -/
def wrongMember? : Issue → Option (Node × Node)
  | .wrongMemberKind collection scheme => some (collection, scheme)
  | _ => none

/-- The scheme and its top concept with a broader concept in it, if this is the issue. -/
def innerTop? : Issue → Option (Node × Node)
  | .topConceptHasBroader concept scheme _ => some (scheme, concept)
  | _ => none

/-- Issues of other kinds are passed over. -/
theorem filterMap_mismatch? {issues : List Issue}
    (h : ∀ i ∈ issues, i.kind ≠ .orderedMembersMismatch) : issues.filterMap mismatch? = [] :=
  List.filterMap_eq_nil_iff.2 fun i hi => by cases i <;> first | rfl | exact absurd rfl (h _ hi)

theorem filterMap_wrongMember? {issues : List Issue}
    (h : ∀ i ∈ issues, i.kind ≠ .wrongMemberKind) : issues.filterMap wrongMember? = [] :=
  List.filterMap_eq_nil_iff.2 fun i hi => by cases i <;> first | rfl | exact absurd rfl (h _ hi)

theorem filterMap_innerTop? {issues : List Issue}
    (h : ∀ i ∈ issues, i.kind ≠ .topConceptHasBroader) : issues.filterMap innerTop? = [] :=
  List.filterMap_eq_nil_iff.2 fun i hi => by cases i <;> first | rfl | exact absurd rfl (h _ hi)

end Issue

namespace ResourceGraph

variable {g : ResourceGraph} {i j : ResourceId} {m n k : Node} {r : Resource}

/-! ## What is wrong -/

/-- Whether the list of an ordered collection disagrees with its members. -/
def Disagrees (g : ResourceGraph) (collection : Node) : Prop :=
  g.kindAt collection = .orderedCollection ∧ ∃ head, g.headAt collection = some head ∧
    ¬ ∀ e, e ∈ (g.cells.resolve collection head).elements ↔ g.Relates .members collection e

/-- Whether a scheme is among the members of a collection. -/
def Misplaces (g : ResourceGraph) (collection scheme : Node) : Prop :=
  (g.kindAt collection).isCollection = true ∧ g.Relates .members collection scheme ∧
    g.kindAt scheme = .conceptScheme

/-- Whether a declared top concept of a scheme has a broader concept in the same scheme. -/
def TopsInside (g : ResourceGraph) (scheme concept : Node) : Prop :=
  g.kindAt scheme = .conceptScheme ∧ g.Relates .topConcepts scheme concept ∧
    ∃ b, g.Relates .broader concept b ∧ g.Relates .schemeMembers scheme b

/-- The issues with the cells of a resource's member list, if it is an ordered collection. -/
def listIssues (g : ResourceGraph) (r : Resource) : List Issue :=
  if r.kind = .orderedCollection then
    r.links.memberList.elim [] fun head => (g.cells.resolve r.node head).issues
  else []

/-! ## Resource by resource -/

/-- Different ids lead to different nodes. -/
theorem nodup_nodesOf (h : Sound g) {ids : List ResourceId} (hids : ids.Nodup) :
    (g.nodesOf ids).Nodup := by
  refine hids.filterMap fun i j n hi hj => ?_
  obtain ⟨r, hr, rfl⟩ := Option.map_eq_some_iff.1 hi
  obtain ⟨s, hs, hsame⟩ := Option.map_eq_some_iff.1 hj
  exact h.indexed.node_inj i j r s hr hs hsame.symm

theorem mem_nodesOf (h : Sound g) {ids : List ResourceId} :
    n ∈ g.nodesOf ids ↔ ∃ i ∈ ids, g.lookup n = some i := by
  simp only [nodesOf, List.mem_filterMap, Option.map_eq_some_iff, h.indexed.lookup_iff]

end ResourceGraph

/-- What is listed once for each resource is listed once in all. -/
theorem ListsOnce.flatMap {g : ResourceGraph} {α : Type} {f : Resource → List α} {p : α → Prop}
    (h : Sound g) (key : α → Node)
    (heach : ∀ (i : ResourceId) r, g.resources[i]? = some r →
      ListsOnce (f r) fun a => key a = r.node ∧ p a)
    (hnamed : ∀ a, p a → (g.lookup (key a)).isSome = true) :
    ListsOnce (g.resources.toList.flatMap f) p where
  nodup := by
    have hkeyed : ∀ r ∈ g.resources.toList, ListsOnce (f r) fun a => key a = r.node ∧ p a := by
      intro r hr
      obtain ⟨i, hi⟩ := ResourceGraph.mem_resources_iff.1 hr
      exact heach i r hi
    refine List.nodup_flatMap.2 ⟨fun r hr => (hkeyed r hr).nodup, ?_⟩
    -- what is listed for different resources has different keys
    have hapart := List.pairwise_map.1 h.indexed.nodup_nodes
    refine hapart.imp_of_mem fun {r s} hr hs hne => List.disjoint_left.2 fun a har hhas => hne ?_
    exact (((hkeyed r hr).mem_iff a).1 har).1.symm.trans (((hkeyed s hs).mem_iff a).1 hhas).1
  mem_iff := fun a => by
    rw [List.mem_flatMap]
    constructor
    · rintro ⟨r, hr, hmem⟩
      obtain ⟨i, hi⟩ := ResourceGraph.mem_resources_iff.1 hr
      exact (((heach i r hi).mem_iff a).1 hmem).2
    · intro ha
      obtain ⟨i, hfound⟩ := Option.isSome_iff_exists.1 (hnamed a ha)
      obtain ⟨r, hr, hsame⟩ := ResourceGraph.lookup_eq_some h.indexed hfound
      exact ⟨r, ResourceGraph.mem_resources_iff.2 ⟨i, hr⟩,
        ((heach i r hr).mem_iff a).2 ⟨hsame.symm, ha⟩⟩

namespace ResourceGraph

variable {g : ResourceGraph} {i j : ResourceId} {m n k : Node} {r : Resource}

/-- The issues with the member list of a resource: those with its cells, and whether it disagrees
with the members. -/
theorem orderIssues_eq (h : Sound g) (hr : g.resources[i]? = some r) :
    ∃ mismatch, g.orderIssues r = g.listIssues r ++ mismatch ∧
      (∀ issue ∈ mismatch, issue.kind = .orderedMembersMismatch) ∧
      ListsOnce (mismatch.filterMap Issue.mismatch?) fun k => k = r.node ∧ g.Disagrees k := by
  have hfound : g.lookup r.node = some i := lookup_node h.indexed hr
  -- where nothing disagrees, the empty list is the right one
  have hagree : ¬ g.Disagrees r.node →
      ListsOnce ([] : List Node) fun k => k = r.node ∧ g.Disagrees k := by
    refine fun hagrees => ⟨List.nodup_nil, fun k => iff_of_false List.not_mem_nil ?_⟩
    rintro ⟨rfl, hdisagrees⟩
    exact hagrees hdisagrees
  unfold orderIssues memberOrder? listIssues
  by_cases hordered : r.kind = .orderedCollection
  · rw [if_pos hordered, if_pos hordered]
    cases hhead : r.links.memberList with
    | none =>
      refine ⟨[], rfl, by simp, hagree ?_⟩
      rintro ⟨_, first, hlisted, _⟩
      rw [headAt, hfound, Option.bind_some, linksOf_eq hr, hhead] at hlisted
      cases hlisted
    | some first =>
      have horder := declaredOrder_eq_none h hfound (g.cells.resolve r.node first).elements
      have hlisted : g.headAt r.node = some first := by
        rw [headAt, hfound, Option.bind_some, linksOf_eq hr, hhead]
      rw [linksOf_eq hr] at horder
      refine ⟨_, rfl, ?_⟩
      -- the order is accepted without a word, or there is one mismatch
      rcases declaredOrder_cases g r.node r.links.members
        (g.cells.resolve r.node first).elements with ⟨_, heq⟩ | ⟨notMembers, notListed, heq⟩
      · rw [heq] at horder ⊢
        refine ⟨by simp, hagree ?_⟩
        rintro ⟨_, first', hlisted', hdisagrees⟩
        obtain rfl : first = first' := Option.some.inj (hlisted.symm.trans hlisted')
        cases horder.2 hdisagrees
      · rw [heq] at horder ⊢
        have hdisagrees : g.Disagrees r.node := by
          refine ⟨?_, first, hlisted, horder.1 rfl⟩
          rw [kindAt_eq hfound, kindOf_eq hr, hordered]
        refine ⟨by simp [Issue.kind], List.nodup_singleton _, fun k => ?_⟩
        exact List.mem_singleton.trans ⟨fun hsame => ⟨hsame, hsame ▸ hdisagrees⟩, And.left⟩
  · rw [if_neg hordered, if_neg hordered]
    refine ⟨[], rfl, by simp, hagree fun hdisagrees => hordered ?_⟩
    rw [← kindOf_eq hr, ← kindAt_eq hfound]
    exact hdisagrees.1

/-- What is wrong with list cells is not found by comparing. -/
theorem kind_of_listIssues : ∀ issue ∈ g.listIssues r, issue.kind.isFinding = false := by
  intro issue hmem
  unfold listIssues at hmem
  split at hmem
  · cases hhead : r.links.memberList with
    | none => simp [hhead] at hmem
    | some first =>
      rw [hhead] at hmem
      exact kind_of_resolve issue hmem
  · cases hmem

/-- The schemes among the members of a resource are recorded, each once. -/
theorem listsOnce_wrongMember (h : Sound g) (hr : g.resources[i]? = some r) :
    ListsOnce ((g.schemeMemberIssues r).filterMap Issue.wrongMember?)
      fun p => p.1 = r.node ∧ g.Misplaces p.1 p.2 := by
  have hfound : g.lookup r.node = some i := lookup_node h.indexed hr
  have hkind : g.kindAt r.node = r.kind := by rw [kindAt_eq hfound, kindOf_eq hr]
  unfold schemeMemberIssues
  -- only collections are asked for schemes among their members
  by_cases hcollection : r.kind.isCollection = true
  · have hpairs : ∀ schemes : List Node, (schemes.map (Issue.wrongMemberKind r.node ·)).filterMap
        Issue.wrongMember? = schemes.map (Prod.mk r.node) := by
      intro schemes
      rw [List.filterMap_map, ← List.filterMap_eq_map]
      rfl
    rw [if_pos hcollection, hpairs]
    refine ⟨(nodup_nodesOf h (r.links.members.nodup.filter _)).map fun s t hsame => ?_, ?_⟩
    · exact congrArg Prod.snd hsame
    · rintro ⟨k, s⟩
      simp only [List.mem_map, mem_nodesOf h, List.mem_filter, Prod.mk.injEq]
      constructor
      · rintro ⟨s, ⟨j, ⟨hmember, hscheme⟩, hs⟩, rfl, rfl⟩
        refine ⟨rfl, by rwa [hkind], ⟨i, j, hfound, hs, linksOf_eq hr ▸ hmember⟩, ?_⟩
        rw [kindAt_eq hs]
        simpa [isScheme] using hscheme
      · rintro ⟨rfl, _, ⟨i', j, hi', hs, hmember⟩, hscheme⟩
        obtain rfl : i = i' := Option.some.inj (hfound.symm.trans hi')
        rw [linksOf_eq hr] at hmember
        rw [kindAt_eq hs] at hscheme
        exact ⟨s, ⟨j, ⟨hmember, by simp [isScheme, hscheme]⟩, hs⟩, rfl, rfl⟩
  · rw [if_neg hcollection]
    refine ⟨List.nodup_nil, fun p => iff_of_false List.not_mem_nil ?_⟩
    rintro ⟨hsame, hisCollection, _⟩
    rw [hsame, hkind] at hisCollection
    exact hcollection hisCollection

/-- A top concept is recorded if one of its broader concepts is in the scheme. -/
theorem topConceptIssue?_eq_some (h : Sound g) {p : Node × Node} :
    (g.topConceptIssue? r j).bind Issue.innerTop? = some p ↔
      ∃ t, g.resources[j]? = some t ∧ p = (r.node, t.node) ∧
        ∃ b ∈ t.links.broader, b ∈ r.links.schemeMembers := by
  unfold topConceptIssue?
  cases ht : g.resources[j]? with
  | none => simp
  | some t =>
    simp only [Option.some.injEq, exists_eq_left']
    cases hinner : innerBroader? r t with
    | none =>
      have houtside := List.find?_eq_none.1 hinner
      refine iff_of_false (by simp) ?_
      rintro ⟨_, b, hbroader, hmem⟩
      exact houtside b hbroader (by simpa using hmem)
    | some b =>
      have hmem : b ∈ r.links.schemeMembers := by simpa using List.find?_some hinner
      have hbroader : b ∈ t.links.broader := List.mem_of_find?_eq_some hinner
      -- broader concepts are resources
      have halong : b ∈ (g.linksOf j).along .broader := linksOf_eq ht ▸ hbroader
      obtain ⟨s, hs⟩ := exists_of_mem_along h halong
      simp only [Option.bind_some, hs, Issue.innerTop?, Option.some.injEq]
      exact ⟨fun hsame => ⟨hsame.symm, b, hbroader, hmem⟩, fun hboth => hboth.1.symm⟩

/-- The top concepts of a resource with broader concepts in it are recorded, each once. -/
theorem listsOnce_innerTop (h : Sound g) (hr : g.resources[i]? = some r) :
    ListsOnce ((g.topConceptIssues r).filterMap Issue.innerTop?)
      fun p => p.1 = r.node ∧ g.TopsInside p.1 p.2 := by
  have hfound : g.lookup r.node = some i := lookup_node h.indexed hr
  have hkind : g.kindAt r.node = r.kind := by rw [kindAt_eq hfound, kindOf_eq hr]
  unfold topConceptIssues
  by_cases hscheme : r.kind = .conceptScheme
  · rw [if_pos hscheme, List.filterMap_filterMap]
    refine ⟨r.links.topConcepts.nodup.filterMap fun j j' p hj hj' => ?_, ?_⟩
    · obtain ⟨t, ht, rfl, _⟩ := (topConceptIssue?_eq_some h).1 hj
      obtain ⟨t', ht', hsame, _⟩ := (topConceptIssue?_eq_some h).1 hj'
      exact h.indexed.node_inj j j' t t' ht ht' (congrArg Prod.snd hsame)
    · rintro ⟨s, c⟩
      -- ids and nodes determine each other, which is what both directions come to
      simp only [List.mem_filterMap, topConceptIssue?_eq_some h, Prod.mk.injEq]
      constructor
      · rintro ⟨j, htop, t, ht, ⟨rfl, rfl⟩, b, hbroader, hmem⟩
        have hfoundTop := lookup_node h.indexed ht
        have halong : b ∈ (g.linksOf j).along .broader := linksOf_eq ht ▸ hbroader
        obtain ⟨u, hu⟩ := exists_of_mem_along h halong
        have hfoundBroader := lookup_node h.indexed hu
        refine ⟨rfl, by rw [hkind, hscheme], ⟨i, j, hfound, hfoundTop, ?_⟩, u.node,
          ⟨j, b, hfoundTop, hfoundBroader, halong⟩, ⟨i, b, hfound, hfoundBroader, ?_⟩⟩
        · exact linksOf_eq hr ▸ htop
        · exact linksOf_eq hr ▸ hmem
      · rintro ⟨rfl, _, ⟨i', j, hi', hfoundTop, htop⟩, u, ⟨j', b, hj', hfoundBroader, hbroader⟩,
          ⟨i'', b', hi'', hb', hmem⟩⟩
        obtain rfl : i = i' := Option.some.inj (hfound.symm.trans hi')
        obtain rfl : i = i'' := Option.some.inj (hfound.symm.trans hi'')
        obtain rfl : j = j' := Option.some.inj (hfoundTop.symm.trans hj')
        obtain rfl : b = b' := Option.some.inj (hfoundBroader.symm.trans hb')
        obtain ⟨t, ht, rfl⟩ := lookup_eq_some h.indexed hfoundTop
        rw [linksOf_eq hr] at htop hmem
        rw [linksOf_eq ht] at hbroader
        exact ⟨j, htop, t, ht, ⟨rfl, rfl⟩, b, hbroader, hmem⟩
  · rw [if_neg hscheme]
    refine ⟨List.nodup_nil, fun p => iff_of_false List.not_mem_nil ?_⟩
    rintro ⟨hsame, hisScheme, _⟩
    rw [hsame, hkind] at hisScheme
    exact hscheme hisScheme

/-! ## All together -/

theorem Misplaces.named (h : g.Misplaces m n) : (g.lookup m).isSome = true := by
  obtain ⟨_, ⟨i, _, hm, _⟩, _⟩ := h
  exact hm ▸ rfl

theorem TopsInside.named (h : g.TopsInside m n) : (g.lookup m).isSome = true := by
  obtain ⟨_, ⟨i, _, hm, _⟩, _⟩ := h
  exact hm ▸ rfl

theorem Disagrees.named (h : g.Disagrees n) : (g.lookup n).isSome = true := by
  obtain ⟨_, _, hlisted, _⟩ := h
  obtain ⟨i, hfound, _⟩ := Option.bind_eq_some_iff.1 hlisted
  exact hfound ▸ rfl

/-- Reading all member lists finds those that disagree. -/
theorem listsOnce_disagrees (h : Sound g) :
    ListsOnce ((g.resources.toList.flatMap g.orderIssues).filterMap Issue.mismatch?)
      g.Disagrees := by
  rw [List.filterMap_flatMap]
  refine ListsOnce.flatMap h id (fun i r hr => ?_) fun k hdisagrees => hdisagrees.named
  obtain ⟨mismatch, heq, _, honce⟩ := orderIssues_eq h hr
  have hcells : (g.listIssues r).filterMap Issue.mismatch? = [] := by
    refine Issue.filterMap_mismatch? fun issue hmem hfound => ?_
    have hother := kind_of_listIssues issue hmem
    rw [hfound] at hother
    cases hother
  rw [heq, List.filterMap_append, hcells, List.nil_append]
  exact honce

/-- Taking the schemes out of all collections finds those that are members. Reading member lists
before has moved none. -/
theorem listsOnce_misplaces (h : Sound g) :
    ListsOnce ((g.readMemberLists.resources.toList.flatMap
      g.readMemberLists.schemeMemberIssues).filterMap Issue.wrongMember?)
      fun p => g.Misplaces p.1 p.2 := by
  have hread := sound_readMemberLists h
  rw [List.filterMap_flatMap]
  have hfound : ListsOnce _ fun p : Node × Node => g.readMemberLists.Misplaces p.1 p.2 :=
    ListsOnce.flatMap hread Prod.fst (fun i r hr => listsOnce_wrongMember hread hr)
      fun p hmisplaced => hmisplaced.named
  refine hfound.congr fun p => ?_
  rw [Misplaces, Misplaces, kindAt_readMemberLists, relates_readMemberLists]

/-- What is of a known kind is kept when the graph is finished. -/
theorem keeps_of_isKnown (h : Indexed g) (hknown : (g.kindAt n).isKnown = true) :
    g.keeps n = true := by
  rw [keeps_eq h, hknown]
  cases hfound : g.lookup n with
  | none => simp [kindAt, hfound, Kind.isKnown] at hknown
  | some i => simp

/-- Both ends of the hierarchy are concepts. -/
theorem kindAt_of_broader (h : Sound g) (hrelated : g.Relates .broader m n) :
    g.kindAt m = .concept ∧ g.kindAt n = .concept := by
  obtain ⟨i, j, hm, hn, hmem⟩ := hrelated
  obtain ⟨hupper, hlower⟩ := h.linked.narrower_kinds j i ((h.linked.narrower_iff j i).2 hmem)
  exact ⟨(kindAt_eq hm).trans hlower, (kindAt_eq hn).trans hupper⟩

/-- What is left out when the graph is finished has no part in the hierarchy. -/
theorem topsInside_completed (h : Sound g) : g.completed.TopsInside m n ↔ g.TopsInside m n := by
  have hkept : ∀ {n kind}, g.kindAt n = kind → kind.isKnown = true → g.keeps n = true := by
    intro n kind his hknown
    exact keeps_of_isKnown h.indexed (his.symm ▸ hknown)
  simp only [TopsInside, kindAt_completed h, relates_completed h]
  constructor
  · rintro ⟨hscheme, ⟨htop, _⟩, b, ⟨hbroader, _⟩, hmem, _⟩
    exact ⟨hscheme, htop, b, hbroader, hmem⟩
  · rintro ⟨hscheme, htop, b, hbroader, hmem⟩
    obtain ⟨hconcept, hconcept'⟩ := kindAt_of_broader h hbroader
    have hkeptScheme := hkept hscheme rfl
    have hkeptTop := hkept hconcept rfl
    have hkeptBroader := hkept hconcept' rfl
    refine ⟨hscheme, ⟨htop, ?_⟩, b, ⟨hbroader, ?_⟩, hmem, ?_⟩ <;> simp [*]

/-- Checking the top concepts of all schemes of the finished graph finds those that had broader
concepts in their schemes before. -/
theorem listsOnce_topsInside (h : Sound g) :
    ListsOnce ((g.completed.resources.toList.flatMap
      g.completed.topConceptIssues).filterMap Issue.innerTop?)
      fun p => g.TopsInside p.1 p.2 := by
  have hcompleted := sound_completed h
  rw [List.filterMap_flatMap]
  have hfound : ListsOnce _ fun p : Node × Node => g.completed.TopsInside p.1 p.2 :=
    ListsOnce.flatMap hcompleted Prod.fst (fun i r hr => listsOnce_innerTop hcompleted hr)
      fun p hinside => hinside.named
  exact hfound.congr fun p => topsInside_completed h

/-- All that reading member lists records besides is about list cells. -/
theorem filter_orderIssues (h : Sound g) :
    (g.resources.toList.flatMap g.orderIssues).filter (fun i => !i.kind.isFinding) =
      g.resources.toList.flatMap g.listIssues := by
  rw [List.filter_flatMap]
  refine List.flatMap_congr fun r hr => ?_
  obtain ⟨i, hi⟩ := mem_resources_iff.1 hr
  obtain ⟨mismatch, heq, hkind, _⟩ := orderIssues_eq h hi
  have hcells : (g.listIssues r).filter (fun i => !i.kind.isFinding) = g.listIssues r :=
    List.filter_eq_self.2 fun issue hmem => by simp [kind_of_listIssues issue hmem]
  have hnone : mismatch.filter (fun i => !i.kind.isFinding) = [] :=
    List.filter_eq_nil_iff.2 fun issue hmem => by simp [hkind issue hmem, IssueKind.isFinding]
  rw [heq, List.filter_append, hcells, hnone, List.append_nil]

end ResourceGraph

open ResourceGraph

/-- What finishing an open graph adds to its issues: each ordered collection whose list disagrees
with its members, each scheme among the members of a collection, and each declared top concept with
a broader concept in its scheme, all of them once, and besides only what is wrong with the cells of
the member lists of ordered collections. -/
structure Finds (g : ResourceGraph) (added : List Issue) : Prop where
  mismatches : ListsOnce (added.filterMap Issue.mismatch?) g.Disagrees
  wrongMembers : ListsOnce (added.filterMap Issue.wrongMember?) fun p => g.Misplaces p.1 p.2
  innerTops : ListsOnce (added.filterMap Issue.innerTop?) fun p => g.TopsInside p.1 p.2
  others : added.filter (fun i => !i.kind.isFinding) = g.resources.toList.flatMap g.listIssues

/-- What three steps record is told apart by kinds. -/
theorem Finds.of_steps {g : ResourceGraph} {read dropped checked : List Issue}
    (hread : ∀ i ∈ read, i.kind.isFinding = true → i.kind = .orderedMembersMismatch)
    (hdropped : ∀ i ∈ dropped, i.kind = .wrongMemberKind)
    (hchecked : ∀ i ∈ checked, i.kind = .topConceptHasBroader)
    (hmismatches : ListsOnce (read.filterMap Issue.mismatch?) g.Disagrees)
    (hwrongMembers : ListsOnce (dropped.filterMap Issue.wrongMember?) fun p => g.Misplaces p.1 p.2)
    (hinnerTops : ListsOnce (checked.filterMap Issue.innerTop?) fun p => g.TopsInside p.1 p.2)
    (hothers : read.filter (fun i => !i.kind.isFinding) =
      g.resources.toList.flatMap g.listIssues) : Finds g (read ++ dropped ++ checked) := by
  have hnotRead : ∀ i ∈ read, i.kind ≠ .wrongMemberKind ∧ i.kind ≠ .topConceptHasBroader := by
    intro i hmem
    have hkind := hread i hmem
    constructor <;> intro hfound <;> rw [hfound] at hkind <;> cases hkind rfl
  -- each step reports a kind of its own, so that a filter for one kind sees one step only
  have hdropped₁ : dropped.filterMap Issue.mismatch? = [] :=
    Issue.filterMap_mismatch? fun i hmem => by simp [hdropped i hmem]
  have hchecked₁ : checked.filterMap Issue.mismatch? = [] :=
    Issue.filterMap_mismatch? fun i hmem => by simp [hchecked i hmem]
  have hread₂ : read.filterMap Issue.wrongMember? = [] :=
    Issue.filterMap_wrongMember? fun i hmem => (hnotRead i hmem).1
  have hchecked₂ : checked.filterMap Issue.wrongMember? = [] :=
    Issue.filterMap_wrongMember? fun i hmem => by simp [hchecked i hmem]
  have hread₃ : read.filterMap Issue.innerTop? = [] :=
    Issue.filterMap_innerTop? fun i hmem => (hnotRead i hmem).2
  have hdropped₃ : dropped.filterMap Issue.innerTop? = [] :=
    Issue.filterMap_innerTop? fun i hmem => by simp [hdropped i hmem]
  have hdropped₄ : dropped.filter (fun i => !i.kind.isFinding) = [] :=
    List.filter_eq_nil_iff.2 fun i hmem => by simp [hdropped i hmem, IssueKind.isFinding]
  have hchecked₄ : checked.filter (fun i => !i.kind.isFinding) = [] :=
    List.filter_eq_nil_iff.2 fun i hmem => by simp [hchecked i hmem, IssueKind.isFinding]
  constructor
  · simpa [hdropped₁, hchecked₁] using hmismatches
  · simpa [hread₂, hchecked₂] using hwrongMembers
  · simpa [hread₃, hdropped₃] using hinnerTops
  · rw [List.filter_append, List.filter_append, hdropped₄, hchecked₄, List.append_nil,
      List.append_nil, hothers]

/-- An open graph can be finished, and this records just what was wrong with it. -/
theorem finish_finds {g : ResourceGraph} (h : Reachable g) (hopen : g.frozen = false) :
    ∃ f added, g.finish = .ok f ∧ f.issues = g.issues ++ added ∧ Finds g added := by
  have hsound := h.sound
  refine ⟨g.completed, _, finish_eq hopen, issues_completed, .of_steps ?_ ?_ ?_
    (listsOnce_disagrees hsound) (listsOnce_misplaces hsound) (listsOnce_topsInside hsound)
    (filter_orderIssues hsound)⟩
  · intro issue hmem hfinding
    obtain ⟨r, hr, hmem⟩ := List.mem_flatMap.1 hmem
    obtain ⟨i, hi⟩ := mem_resources_iff.1 hr
    obtain ⟨mismatch, heq, hkind, _⟩ := orderIssues_eq hsound hi
    rw [heq] at hmem
    rcases List.mem_append.1 hmem with hmem | hmem
    · rw [kind_of_listIssues issue hmem] at hfinding
      cases hfinding
    · exact hkind issue hmem
  · intro issue hmem
    obtain ⟨r, _, hmem⟩ := List.mem_flatMap.1 hmem
    exact kind_of_schemeMemberIssues issue hmem
  · intro issue hmem
    obtain ⟨r, _, hmem⟩ := List.mem_flatMap.1 hmem
    exact kind_of_topConceptIssues issue hmem

/-- Statements about an ordered collection with a scheme among its members and another one that its
list leaves out, which is a top concept of the scheme and narrower than a concept in it. -/
def crossedStatements : List Triple := [
  ⟨.iri "urn:k", "http://www.w3.org/2004/02/skos/core#memberList", .node (.iri Rdf.nilIri)⟩,
  ⟨.iri "urn:k", "http://www.w3.org/2004/02/skos/core#member", .node (.iri "urn:s")⟩,
  ⟨.iri "urn:k", "http://www.w3.org/2004/02/skos/core#member", .node (.iri "urn:b")⟩,
  ⟨.iri "urn:b", "http://www.w3.org/2004/02/skos/core#topConceptOf", .node (.iri "urn:s")⟩,
  ⟨.iri "urn:a", "http://www.w3.org/2004/02/skos/core#inScheme", .node (.iri "urn:s")⟩,
  ⟨.iri "urn:b", "http://www.w3.org/2004/02/skos/core#broader", .node (.iri "urn:a")⟩]

theorem finish_finds_crossed :
    ∃ g, (new { conceptSchemes := true, collections := true }).ingestAll crossedStatements =
        .ok g ∧ Reachable g ∧ g.frozen = false ∧
      ∃ f added, g.finish = .ok f ∧ f.issues = g.issues ++ added ∧ Finds g added ∧
        f.issues.map (·.kind) = [.orderedMembersMismatch, .wrongMemberKind,
          .topConceptHasBroader] := by
  obtain ⟨g, htaken, _, _, hopen, _⟩ := exists_ingestAll crossedStatements
    (Sound.new { conceptSchemes := true, collections := true }) rfl
  have hreachable : Reachable g := (Reachable.new _).ingestAll htaken
  obtain ⟨f, added, hfinished, hissues, hfinds⟩ := finish_finds hreachable hopen
  have hkinds : (((new { conceptSchemes := true, collections := true }).ingestAll
      crossedStatements).bind (·.finish)).map (·.issues.map (·.kind)) =
      .ok [.orderedMembersMismatch, .wrongMemberKind, .topConceptHasBroader] := by decide +kernel
  rw [htaken] at hkinds
  change g.finish.map _ = _ at hkinds
  rw [hfinished] at hkinds
  exact ⟨g, htaken, hreachable, hopen, f, added, hfinished, hissues, hfinds, Except.ok.inj hkinds⟩

end Thesaurus
