import Thesaurus.Proofs.Graph.Coherent

/-!
# Reading a graph through nodes

Ids depend on the order of the statements and change when a graph is finished; nodes do not. A graph
is read here through nodes alone, and the first steps of finishing are described by what they do to
such a reading.

- `Tie`, `Links.along`: the relations that links record.
- `ResourceGraph.kindAt`, `ResourceGraph.Relates`, `ResourceGraph.headAt`, `ResourceGraph.orderAt`:
  kinds, relations, member lists and orders through nodes.
- `ResourceGraph.keeps`: which nodes are left when a graph is finished.
- `ResourceGraph.orderAt_readMemberLists`: which orders are read from member lists.
- `ResourceGraph.relates_dropSchemes`: relations when schemes are in no collection.
-/

namespace Thesaurus

open Rdf (Node)

/-- The relations that links record: to broader and narrower concepts, from a collection to its
members, from a resource to its schemes and collections, and from a scheme to the resources in it
and to its top concepts. -/
inductive Tie where
  | broader
  | narrower
  | members
  | inSchemes
  | inCollections
  | schemeMembers
  | topConcepts
deriving DecidableEq, Repr

/-- The ids that a relation leads to. -/
def Links.along (l : Links) : Tie → IdSet
  | .broader => l.broader
  | .narrower => l.narrower
  | .members => l.members
  | .inSchemes => l.inSchemes
  | .inCollections => l.inCollections
  | .schemeMembers => l.schemeMembers
  | .topConcepts => l.topConcepts

namespace Links

@[simp] theorem along_empty (tie : Tie) : ({} : Links).along tie = ∅ := by
  cases tie <;> rfl

@[simp] theorem along_rename (rename : ResourceId → Option ResourceId) (l : Links) (tie : Tie) :
    (l.rename rename).along tie = (l.along tie).filterMap rename := by
  cases tie <;> rfl

/-- Orders have no part in relations. -/
@[simp] theorem along_reorder (l : Links) (order : Option (List ResourceId)) (tie : Tie) :
    ({ l with orderedMembers := order } : Links).along tie = l.along tie := by
  cases tie <;> rfl

end Links

namespace ResourceGraph

/-! ## Kinds, relations and lists through nodes -/

/-- The kind of a node; a node without a resource has none. -/
def kindAt (g : ResourceGraph) (n : Node) : Kind :=
  (g.lookup n).elim .unknown g.kindOf

/-- Whether a relation leads from one node to another. -/
def Relates (g : ResourceGraph) (tie : Tie) (m n : Node) : Prop :=
  ∃ i j, g.lookup m = some i ∧ g.lookup n = some j ∧ j ∈ (g.linksOf i).along tie

/-- The first cell of the member list of a node. -/
def headAt (g : ResourceGraph) (n : Node) : Option Node :=
  (g.lookup n).bind fun id => (g.linksOf id).memberList

/-- The members of a node in their order, if an order was read. -/
def orderAt (g : ResourceGraph) (n : Node) : Option (List Node) :=
  (g.lookup n).bind fun id => (g.linksOf id).orderedMembers.map g.nodesOf

/-- Whether a resource is kept when the graph is finished. -/
def retains (g : ResourceGraph) (r : Resource) : Bool :=
  !g.configuration.filtersByType || r.kind.isKnown

/-- Whether a node has a resource that is kept when the graph is finished. -/
def keeps (g : ResourceGraph) (n : Node) : Bool :=
  (g.lookup n).any fun id => g.resources[id]?.any g.retains

variable {g g' : ResourceGraph} {i j : ResourceId} {m n : Node} {r s : Resource} {tie : Tie}

theorem kindAt_eq (hm : g.lookup m = some i) : g.kindAt m = g.kindOf i := by
  simp [kindAt, hm]

theorem relates_iff (hm : g.lookup m = some i) (hn : g.lookup n = some j) :
    g.Relates tie m n ↔ j ∈ (g.linksOf i).along tie := by
  simp [Relates, hm, hn]

/-- Where links lead, a resource can be found. -/
theorem exists_of_mem_along (h : Sound g) (hj : j ∈ (g.linksOf i).along tie) :
    ∃ s, g.resources[j]? = some s := by
  refine exists_resource ?_
  cases tie with
  | broader => exact h.broader_lt hj
  | narrower => exact h.narrower_lt hj
  | members => exact h.member_lt hj
  | inSchemes => exact h.inScheme_lt hj
  | inCollections => exact h.inCollection_lt hj
  | schemeMembers => exact h.schemeMember_lt hj
  | topConcepts => exact h.schemeMember_lt (h.linked.top_member i j hj)

theorem nodesOf_cons (hr : g.resources[i]? = some r) (ids : List ResourceId) :
    g.nodesOf (i :: ids) = r.node :: g.nodesOf ids := by
  simp [nodesOf, hr]

/-! ## Changing resources in their places -/

theorem nodesOf_map {change : Resource → Resource} (hmap : g'.resources = g.resources.map change)
    (hnode : ∀ r, (change r).node = r.node) : g'.nodesOf = g.nodesOf := by
  funext ids
  refine List.filterMap_congr fun id _ => ?_
  rw [hmap, Array.getElem?_map]
  cases g.resources[id]? with
  | none => rfl
  | some r => exact congrArg some (hnode r)

theorem kindAt_congr (hlookup : g'.lookup = g.lookup) (hkind : g'.kindOf = g.kindOf) :
    g'.kindAt = g.kindAt := by
  funext n
  rw [kindAt, kindAt, hlookup, hkind]

theorem relates_congr (hlookup : g'.lookup = g.lookup)
    (halong : ∀ i, (g'.linksOf i).along tie = (g.linksOf i).along tie) :
    g'.Relates tie m n ↔ g.Relates tie m n := by
  simp only [Relates, hlookup, halong]

theorem keeps_map {change : Resource → Resource} (hmap : g'.resources = g.resources.map change)
    (hlookup : g'.lookup = g.lookup) (hconfiguration : g'.configuration = g.configuration)
    (hkind : ∀ r, (change r).kind = r.kind) :
    g'.keeps = g.keeps := by
  funext n
  rw [keeps, keeps, hlookup]
  congr 1
  funext id
  rw [hmap, Array.getElem?_map]
  cases g.resources[id]? with
  | none => rfl
  | some r => simp [retains, hconfiguration, hkind]

/-! ## Reading member lists -/

theorem lookup_readMemberLists : g.readMemberLists.lookup = g.lookup :=
  rfl

theorem nodesOf_readMemberLists : g.readMemberLists.nodesOf = g.nodesOf :=
  nodesOf_map rfl (withOrder_keeps (·.node) fun _ _ => rfl)

theorem keeps_readMemberLists : g.readMemberLists.keeps = g.keeps :=
  keeps_map rfl rfl rfl (withOrder_keeps (·.kind) fun _ _ => rfl)

theorem kindAt_readMemberLists : g.readMemberLists.kindAt = g.kindAt :=
  kindAt_congr lookup_readMemberLists kindOf_readMemberLists

theorem relates_readMemberLists : g.readMemberLists.Relates tie m n ↔ g.Relates tie m n :=
  relates_congr lookup_readMemberLists fun i => by rw [linksOf_readMemberLists, Links.along_reorder]

theorem headAt_readMemberLists : g.readMemberLists.headAt = g.headAt := by
  funext n
  rw [headAt, headAt, lookup_readMemberLists, linksOf_readMemberLists]

/-- The members of a collection, through nodes. -/
theorem mem_members_iff (hn : g.lookup n = some i) (hm : g.lookup m = some j) :
    j ∈ (g.linksOf i).members ↔ g.Relates .members n m := by
  rw [relates_iff hn hm]
  rfl

/-- A listed element is a member if the collection is related to it. -/
theorem listedMember?_eq_some (hn : g.lookup n = some i) :
    g.listedMember? (g.linksOf i).members m = some j ↔
      g.lookup m = some j ∧ g.Relates .members n m := by
  rw [listedMember?, Option.filter_eq_some_iff, decide_eq_true_eq]
  exact and_congr_right fun hm => mem_members_iff hn hm

theorem listedMember?_eq_lookup (hn : g.lookup n = some i) (hrelated : g.Relates .members n m) :
    g.listedMember? (g.linksOf i).members m = g.lookup m := by
  obtain ⟨_, j, _, hm, _⟩ := id hrelated
  rw [hm]
  exact (listedMember?_eq_some hn).2 ⟨hm, hrelated⟩

/-- A list leaves out no member if every node that is a member is an element. -/
theorem notListed_iff (h : Sound g) (hn : g.lookup n = some i) {elements : List Node} :
    (∀ j ∈ (g.linksOf i).members.toList,
        j ∈ elements.filterMap (g.listedMember? (g.linksOf i).members)) ↔
      ∀ e, g.Relates .members n e → e ∈ elements := by
  constructor
  · rintro hcomplete e ⟨_, j, hn', he, hj⟩
    rw [hn, Option.some.injEq] at hn'
    subst hn'
    obtain ⟨e', he', hfound⟩ := List.mem_filterMap.1 (hcomplete j hj)
    -- the id of a resource is that of one node
    exact eq_of_lookup h.indexed he ((listedMember?_eq_some hn).1 hfound).1 ▸ he'
  · intro hcomplete j hj
    obtain ⟨s, hs⟩ := exists_of_mem_along h (show j ∈ (g.linksOf i).along .members from hj)
    have hrelated : g.Relates .members n s.node :=
      (mem_members_iff hn (lookup_node h.indexed hs)).1 hj
    exact List.mem_filterMap.2 ⟨s.node, hcomplete s.node hrelated,
      (listedMember?_eq_some hn).2 ⟨lookup_node h.indexed hs, hrelated⟩⟩

/-- A declared order is accepted if it lists just the members, and then it lists their ids. -/
theorem declaredOrder_eq_some (h : Sound g) (hn : g.lookup n = some i) {elements : List Node}
    {order : List ResourceId} :
    (g.declaredOrder n (g.linksOf i).members elements).order = some order ↔
      (∀ e, e ∈ elements ↔ g.Relates .members n e) ∧ order = elements.filterMap g.lookup := by
  -- both lists of differences are empty just if listed and linked members are the same
  have hagrees : ((elements.filter fun e =>
        (g.listedMember? (g.linksOf i).members e).isNone).isEmpty &&
      ((g.linksOf i).members.toList.filter fun m =>
        !(elements.filterMap (g.listedMember? (g.linksOf i).members)).contains m).isEmpty) = true ↔
      ∀ e, e ∈ elements ↔ g.Relates .members n e := by
    simp only [Bool.and_eq_true, List.isEmpty_iff, List.filter_eq_nil_iff, Bool.not_eq_true',
      Bool.not_eq_false, List.contains_iff_mem, notListed_iff h hn, Option.isNone_iff_eq_none]
    constructor
    · rintro ⟨hknown, hcomplete⟩ e
      refine ⟨fun he => ?_, hcomplete e⟩
      obtain ⟨j, hj⟩ := Option.ne_none_iff_exists'.1 (hknown e he)
      exact ((listedMember?_eq_some hn).1 hj).2
    · intro hsame
      refine ⟨fun e he => ?_, fun e => (hsame e).2⟩
      obtain ⟨_, j, _, hfound, _⟩ := (hsame e).1 he
      rw [listedMember?_eq_lookup hn ((hsame e).1 he), hfound]
      simp
  rw [declaredOrder]
  split
  · next hok =>
    have hsame := hagrees.1 hok
    have hordered : elements.filterMap (g.listedMember? (g.linksOf i).members) =
        elements.filterMap g.lookup :=
      List.filterMap_congr fun e he => listedMember?_eq_lookup hn ((hsame e).1 he)
    rw [hordered, Option.some.injEq]
    exact ⟨fun heq => ⟨hsame, heq.symm⟩, fun hboth => hboth.2.symm⟩
  · next hbad =>
    refine ⟨fun hnone => ?_, fun hboth => absurd (hagrees.2 hboth.1) hbad⟩
    cases hnone

/-- Looking up nodes and reading them off again gives the nodes that have resources. -/
theorem nodesOf_lookups (h : Indexed g) (nodes : List Node)
    (hfound : ∀ n ∈ nodes, (g.lookup n).isSome) : g.nodesOf (nodes.filterMap g.lookup) = nodes := by
  induction nodes with
  | nil => rfl
  | cons n rest ih =>
    obtain ⟨i, hi⟩ := Option.isSome_iff_exists.1 (hfound n List.mem_cons_self)
    obtain ⟨r, hr, rfl⟩ := lookup_eq_some h hi
    rw [List.filterMap_cons, hi]
    dsimp only
    rw [nodesOf_cons hr, ih fun n hn => hfound n (List.mem_cons_of_mem _ hn)]

/-- The order that a resource is given, if it had none. -/
theorem orderedMembers_withOrder (hunread : r.links.orderedMembers = none) :
    (g.withOrder r).links.orderedMembers = (g.memberOrder? r).bind (·.order) := by
  unfold withOrder
  split
  · next hfound =>
    rw [hfound]
    rfl
  · next hother =>
    rw [hunread]
    cases hfound : g.memberOrder? r with
    | none => rfl
    | some declared =>
      obtain ⟨_ | order, issues⟩ := declared
      · rfl
      · exact absurd hfound (hother order issues)

/-- The order that is read for a collection is its list, if it is ordered and the list is just that
of its members. -/
theorem orderAt_readMemberLists (h : Sound g) (hunread : g.Unread) {elements : List Node} :
    g.readMemberLists.orderAt n = some elements ↔
      g.kindAt n = .orderedCollection ∧
        (∃ head, g.headAt n = some head ∧ (g.cells.resolve n head).elements = elements) ∧
        ∀ e, e ∈ elements ↔ g.Relates .members n e := by
  rw [orderAt, lookup_readMemberLists, nodesOf_readMemberLists]
  cases hn : g.lookup n with
  | none => simp [kindAt, hn]
  | some i =>
    obtain ⟨r, hr, rfl⟩ := lookup_eq_some h.indexed hn
    have horder : (g.readMemberLists.linksOf i).orderedMembers =
        (g.memberOrder? r).bind (·.order) := by
      rw [linksOf, get_readMemberLists, hr]
      exact orderedMembers_withOrder (linksOf_eq hr ▸ hunread i)
    -- members can be looked up, so that ids and nodes of an accepted order go together
    have hnodes : ∀ {elements : List Node}, (∀ e, e ∈ elements ↔ g.Relates .members r.node e) →
        g.nodesOf (elements.filterMap g.lookup) = elements := by
      intro elements hsame
      refine nodesOf_lookups h.indexed elements fun e he => ?_
      obtain ⟨_, j, _, hfound, _⟩ := (hsame e).1 he
      rw [hfound]
      rfl
    rw [Option.bind_some, horder, kindAt_eq hn, kindOf_eq hr, headAt, hn, Option.bind_some,
      linksOf_eq hr, memberOrder?]
    by_cases hordered : r.kind = .orderedCollection
    · rw [if_pos hordered]
      cases hhead : r.links.memberList with
      | none => simp
      | some head =>
        simp only [Option.map_some, Option.bind_some, hordered, true_and, Option.some.injEq,
          exists_eq_left', Option.map_eq_some_iff, ← linksOf_eq hr, declaredOrder_eq_some h hn]
        constructor
        · rintro ⟨_, ⟨hsame, rfl⟩, rfl⟩
          rw [hnodes hsame]
          exact ⟨rfl, hsame⟩
        · rintro ⟨rfl, hsame⟩
          exact ⟨_, ⟨hsame, rfl⟩, hnodes hsame⟩
    · simp [hordered]

/-! ## Taking schemes out of collections -/

theorem lookup_dropSchemes : g.dropSchemesFromCollections.lookup = g.lookup :=
  rfl

theorem nodesOf_dropSchemes : g.dropSchemesFromCollections.nodesOf = g.nodesOf :=
  nodesOf_map rfl fun _ => rfl

theorem keeps_dropSchemes : g.dropSchemesFromCollections.keeps = g.keeps :=
  keeps_map rfl rfl rfl fun _ => rfl

theorem kindAt_dropSchemes : g.dropSchemesFromCollections.kindAt = g.kindAt :=
  kindAt_congr lookup_dropSchemes kindOf_dropSchemes

/-- Only what a scheme has to do with collections is dropped. -/
theorem mem_along_withoutSchemes (h : Sound g) :
    j ∈ (withoutSchemes g.kindOf g.linksOf i).along tie ↔
      j ∈ (g.linksOf i).along tie ∧
        (tie = .members → g.kindOf j ≠ .conceptScheme) ∧
        (tie = .inCollections → g.kindOf i ≠ .conceptScheme) := by
  have hother : tie ≠ .members → tie ≠ .inCollections →
      (withoutSchemes g.kindOf g.linksOf i).along tie = (g.linksOf i).along tie := by
    intro hnotMembers hnotInCollections
    unfold withoutSchemes
    split
    · cases tie <;> first | rfl | contradiction
    · split
      · cases tie <;> first | rfl | contradiction
      · rfl
  by_cases hmembers : tie = .members
  · subst hmembers
    simpa [Links.along] using h.linked.mem_members_withoutSchemes
  · by_cases hinCollections : tie = .inCollections
    · subst hinCollections
      simpa [Links.along] using Linked.mem_inCollections_withoutSchemes
    · rw [hother hmembers hinCollections]
      simp [hmembers, hinCollections]

theorem relates_dropSchemes (h : Sound g) :
    g.dropSchemesFromCollections.Relates tie m n ↔
      g.Relates tie m n ∧ (tie = .members → g.kindAt n ≠ .conceptScheme) ∧
        (tie = .inCollections → g.kindAt m ≠ .conceptScheme) := by
  unfold Relates
  rw [lookup_dropSchemes, linksOf_dropSchemes]
  constructor
  · rintro ⟨i, j, hm, hn, hj⟩
    rw [kindAt_eq hm, kindAt_eq hn]
    obtain ⟨hmem, hfits⟩ := (mem_along_withoutSchemes h).1 hj
    exact ⟨⟨i, j, hm, hn, hmem⟩, hfits⟩
  · rintro ⟨⟨i, j, hm, hn, hj⟩, hfits⟩
    rw [kindAt_eq hm, kindAt_eq hn] at hfits
    exact ⟨i, j, hm, hn, (mem_along_withoutSchemes h).2 ⟨hj, hfits⟩⟩

theorem memberList_withoutSchemes :
    (withoutSchemes g.kindOf g.linksOf i).memberList = (g.linksOf i).memberList := by
  unfold withoutSchemes
  split
  · rfl
  · split <;> rfl

theorem headAt_dropSchemes : g.dropSchemesFromCollections.headAt = g.headAt := by
  funext n
  simp only [headAt, lookup_dropSchemes, linksOf_dropSchemes, memberList_withoutSchemes]

/-- Keeping the ids that pass a test keeps the nodes that pass it. -/
theorem nodesOf_filter {p : ResourceId → Bool} {q : Node → Bool} {ids : List ResourceId}
    (h : ∀ i ∈ ids, ∀ r, g.resources[i]? = some r → q r.node = p i) :
    g.nodesOf (ids.filter p) = (g.nodesOf ids).filter q := by
  induction ids with
  | nil => rfl
  | cons i rest ih =>
    have ih := ih fun j hj => h j (List.mem_cons_of_mem _ hj)
    cases hfound : g.resources[i]? with
    | none =>
      have habsent : g.nodesOf (i :: rest) = g.nodesOf rest := by simp [nodesOf, hfound]
      rw [habsent, ← ih, List.filter_cons]
      split
      · simp [nodesOf, hfound]
      · rfl
    | some r =>
      rw [nodesOf_cons hfound, List.filter_cons, List.filter_cons, h i List.mem_cons_self r hfound]
      split
      · rw [nodesOf_cons hfound, ih]
      · exact ih

/-- Orders lose their schemes. What is no collection has no members to lose. -/
theorem orderedMembers_withoutSchemes (h : Sound g) :
    (withoutSchemes g.kindOf g.linksOf i).orderedMembers =
      (g.linksOf i).orderedMembers.map (·.filter fun m => !(g.kindOf m == .conceptScheme)) := by
  by_cases hcollection : (g.kindOf i).isCollection = true
  · rw [withoutSchemes, if_pos hcollection]
  · have hsame : (withoutSchemes g.kindOf g.linksOf i).orderedMembers =
        (g.linksOf i).orderedMembers := by
      rw [withoutSchemes, if_neg hcollection]
      split <;> rfl
    rw [hsame]
    cases horder : (g.linksOf i).orderedMembers with
    | none => rfl
    | some ids =>
      have hnothing : ids = [] := List.eq_nil_iff_forall_not_mem.2 fun j hj =>
        hcollection (h.linked.collection_kind i j (h.linked.ordered_member i ids horder j hj))
      rw [hnothing]
      rfl

theorem orderAt_dropSchemes (h : Sound g) : g.dropSchemesFromCollections.orderAt n =
    (g.orderAt n).map (·.filter fun e => g.kindAt e != .conceptScheme) := by
  rw [orderAt, orderAt, lookup_dropSchemes, nodesOf_dropSchemes, linksOf_dropSchemes]
  cases hn : g.lookup n with
  | none => rfl
  | some i =>
    rw [Option.bind_some, Option.bind_some, orderedMembers_withoutSchemes h, Option.map_map,
      Option.map_map]
    congr 1
    funext ids
    refine nodesOf_filter fun i _ r hr => ?_
    rw [kindAt_eq (lookup_node h.indexed hr)]
    rfl

end ResourceGraph

end Thesaurus
