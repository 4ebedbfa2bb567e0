import Thesaurus.Proofs.Forest.SiblingOrder
import Thesaurus.Proofs.Graph.Finish
import Thesaurus.Proofs.Hierarchy.Cycles

/-!
# Components of cycles

The components of cycles are the classes of concepts that are narrower than each other, each class
once, and any listing of strongly connected components leads to the same ones.

- `Hierarchy.countP_components`: an id that leads to itself lies in one component.
- `compareComponents`: instances that make it a lawful comparison.
- `ResourceGraph.NamesCycles`: what the components of cycles say of a graph.
- `ResourceGraph.Together`, `ResourceGraph.ListsComponents`: what strongly connected components are,
  and what a listing of them has to be.
- `ResourceGraph.cyclesAmong`: the components of cycles, as they are picked out of such a listing.
- `ResourceGraph.cyclesAmong_eq`: they do not depend on the listing.
- `cycles_named`: the components of cycles name the cycles.
-/

namespace Thesaurus

open Relation (ReflTransGen TransGen)
open Std (LawfulEqCmp ReflCmp TransCmp)

namespace Hierarchy

variable {under : ResourceId → IdSet} {R : ResourceId → ResourceId → Prop}
  {ids : List ResourceId} {id : ResourceId}

/-- An id that leads to itself lies in one component. -/
theorem countP_components (hunder : ∀ a b, b ∈ under a ↔ TransGen R a b) (hnodup : ids.Nodup)
    (hids : ∀ a b, TransGen R a b → a ∈ ids) (hcycle : TransGen R id id) :
    (components under ids).countP (id ∈ ·) = 1 := by
  obtain ⟨least, hfirst, hdown, hup⟩ := exists_least hunder hcycle
  -- among the ids at which a component is found, only the least one of its own finds it
  have hfound : ∀ a ∈ ids, (decide (id ∈ component under a) &&
      decide ((component under a).toList.head? = some a)) = true ↔ (a == least) = true := by
    intro a _
    rw [Bool.and_eq_true, decide_eq_true_iff, decide_eq_true_iff, beq_iff_eq]
    constructor
    · rintro ⟨hmem, hhead⟩
      obtain ⟨hforth, hback⟩ := (mem_component hunder).1 hmem
      rw [component_eq hunder hback hforth, hfirst] at hhead
      exact (Option.some.inj hhead).symm
    · rintro rfl
      rw [component_eq hunder hdown hup]
      exact ⟨(mem_component hunder).2 ⟨hcycle, hcycle⟩, hfirst⟩
  rw [components, List.countP_map, List.countP_filter]
  exact (List.countP_congr hfound).trans (List.count_eq_one_of_mem hnodup (hids _ _ hup))

/-- No component is listed twice. -/
theorem nodup_components (hnodup : ids.Nodup) : (components under ids).Nodup := by
  refine (hnodup.filter _).map_on fun a ha b hb hsame => ?_
  have headA : (component under a).toList.head? = some a := by simpa using (List.mem_filter.1 ha).2
  have headB : (component under b).toList.head? = some b := by simpa using (List.mem_filter.1 hb).2
  rw [hsame, headB] at headA
  exact (Option.some.inj headA).symm

end Hierarchy

namespace ResourceGraph

/-! ## Sorting -/

theorem compareComponents_eq_lex : compareComponents =
    compareLex (fun a b => compare b.members.length a.members.length)
      fun a b => compare a.members b.members :=
  rfl

instance : TransCmp compareComponents := by
  rw [compareComponents_eq_lex]
  have hsize : TransCmp fun a b : CycleComponent => compare a.members.length b.members.length :=
    transCmp_by fun c : CycleComponent => c.members.length
  have hlargerFirst : TransCmp fun a b : CycleComponent =>
      compare b.members.length a.members.length := TransCmp.opposite
  have hmembers : TransCmp fun a b : CycleComponent => compare a.members b.members :=
    transCmp_by CycleComponent.members
  infer_instance

instance : LawfulEqCmp compareComponents where
  compare_self := ReflCmp.compare_self
  eq_of_compare {a b} h := by
    cases a
    cases b
    simpa [compareComponents, Ordering.then_eq_eq] using (Ordering.then_eq_eq.1 h).2

variable {g : ResourceGraph} {a b : ResourceId} {sccs : List (List ResourceId)}
  {scc : List ResourceId} {members : IdSet}

/-- The members of the components of cycles as ids, in the order of the components. -/
def cycleClasses (g : ResourceGraph) : List IdSet :=
  sortOn g.componentOf compareComponents (Hierarchy.components (tableAt g.narrowerTable) g.ids)

theorem cycleClasses_perm (g : ResourceGraph) :
    g.cycleClasses.Perm (Hierarchy.components (tableAt g.narrowerTable) g.ids) :=
  sortOn_perm ..

theorem cycleComponents_eq (g : ResourceGraph) :
    g.cycleComponents = g.cycleClasses.map g.componentOf :=
  sortOn_map fun _ _ => rfl

/-! ## What components name -/

/-- Whether a component names just the given resources, in the order of their texts. -/
def NamesAll (g : ResourceGraph) (component : CycleComponent) (members : IdSet) : Prop :=
  component.members.Perm ((g.nodesOf members.toList).map (·.text)) ∧
    component.members.Pairwise fun s t => (compare s t).isLE = true

/-- What the components of cycles say of a graph, where `classes` are their members as ids. Each
component names its members, sorted. What is narrower than itself lies in one of them together with
what is both narrower and broader, and nothing else lies in any. Larger components come first, and
components of one size in the order of their members. -/
structure NamesCycles (g : ResourceGraph) (components : List CycleComponent)
    (classes : List IdSet) : Prop where
  named : List.Forall₂ g.NamesAll components classes
  inhabited : ∀ members ∈ classes, ∃ a, a ∈ members
  held : ∀ members ∈ classes, ∀ a ∈ members, a < g.size
  once : ∀ a, TransGen g.Narrower a a → classes.countP (a ∈ ·) = 1
  never : ∀ a, ¬ TransGen g.Narrower a a → ∀ members ∈ classes, a ∉ members
  together : ∀ members ∈ classes, ∀ a ∈ members, ∀ b,
    b ∈ members ↔ TransGen g.Narrower a b ∧ TransGen g.Narrower b a
  ordered : components.Pairwise fun c d => d.members.length < c.members.length ∨
    d.members.length = c.members.length ∧ (compare c.members d.members).isLE = true

theorem namesAll_componentOf (g : ResourceGraph) (members : IdSet) :
    g.NamesAll (g.componentOf members) members :=
  ⟨sortOn_perm .., sortOn_pairwise _⟩

/-- A class is that of any of its members. -/
theorem mem_class (h : Sound g) (hmembers : members ∈ g.cycleClasses) (ha : a ∈ members) :
    b ∈ members ↔ TransGen g.Narrower a b ∧ TransGen g.Narrower b a := by
  obtain ⟨c, _, hclass⟩ := Hierarchy.exists_of_mem_components (fun _ _ => mem_narrowerTable h)
    ((cycleClasses_perm g).mem_iff.1 hmembers)
  obtain ⟨hdown, hup⟩ := (hclass a).1 ha
  rw [hclass b]
  exact ⟨fun hb => ⟨hup.trans hb.1, hb.2.trans hdown⟩, fun hb => ⟨hdown.trans hb.1, hb.2.trans hup⟩⟩

/-- The components of cycles name the cycles. -/
theorem namesCycles (h : Sound g) : g.NamesCycles g.cycleComponents g.cycleClasses := by
  have hcyclic : ∀ members ∈ g.cycleClasses, ∀ a ∈ members, TransGen g.Narrower a a :=
    fun members hmembers a ha => ((mem_class h hmembers ha).1 ha).1
  have hlisted : ∀ a b, TransGen g.Narrower a b → a ∈ g.ids := fun a b hab =>
    List.mem_range.2 (narrower_transGen_lt h hab).1
  refine
    { named := ?_, inhabited := ?_, held := ?_, once := ?_, never := ?_, together := ?_,
      ordered := ?_ }
  · rw [cycleComponents_eq]
    exact List.forall₂_map_left_iff.2 (List.forall₂_same.2 fun members _ =>
      g.namesAll_componentOf members)
  · intro members hmembers
    obtain ⟨a, hcycle, hclass⟩ := Hierarchy.exists_of_mem_components
      (fun _ _ => mem_narrowerTable h) ((cycleClasses_perm g).mem_iff.1 hmembers)
    exact ⟨a, (hclass a).2 ⟨hcycle, hcycle⟩⟩
  · intro members hmembers a ha
    exact (narrower_transGen_lt h (hcyclic members hmembers a ha)).1
  · intro a hcycle
    rw [(cycleClasses_perm g).countP_eq]
    exact Hierarchy.countP_components (fun _ _ => mem_narrowerTable h) List.nodup_range hlisted
      hcycle
  · intro a hnotCyclic members hmembers ha
    exact hnotCyclic (hcyclic members hmembers a ha)
  · exact fun members hmembers a ha b => mem_class h hmembers ha
  · -- larger components come first, and those of one size in the order of their members
    have hsorted : g.cycleComponents.Pairwise fun c d => (compareComponents c d).isLE = true :=
      sortOn_pairwise _
    refine hsorted.imp fun {c d} hle => ?_
    rcases Ordering.isLE_iff_eq_lt_or_eq_eq.1 hle with hlt | heq
    · rcases Ordering.then_eq_lt.1 hlt with hlarger | ⟨hsame, hbefore⟩
      · exact .inl (compare_lt_iff_lt.1 hlarger)
      · exact .inr ⟨compare_eq_iff_eq.1 hsame, Ordering.isLE_of_eq_lt hbefore⟩
    · obtain ⟨hsame, hequal⟩ := Ordering.then_eq_eq.1 heq
      exact .inr ⟨compare_eq_iff_eq.1 hsame, Ordering.isLE_of_eq_eq hequal⟩

/-- Whether the hierarchy is acyclic is whether there are components of cycles. -/
theorem isAcyclic_iff_cycleComponents (h : Sound g) :
    g.isAcyclic = true ↔ g.cycleComponents = [] := by
  have hnames := namesCycles h
  rw [isAcyclic_iff h, cycleComponents_eq, List.map_eq_nil_iff]
  constructor
  · intro hacyclic
    refine List.eq_nil_iff_forall_not_mem.2 fun members hmembers => ?_
    obtain ⟨a, ha⟩ := hnames.inhabited members hmembers
    exact hnames.never a (hacyclic a) members hmembers ha
  · intro hempty a hcycle
    have honce := hnames.once a hcycle
    rw [hempty] at honce
    cases honce

/-! ## Listings of strongly connected components -/

/-- Whether each of two concepts can be reached from the other by steps to narrower ones. -/
def Together (g : ResourceGraph) (a b : ResourceId) : Prop :=
  ReflTransGen g.Narrower a b ∧ ReflTransGen g.Narrower b a

theorem Together.symm (h : g.Together a b) : g.Together b a :=
  ⟨h.2, h.1⟩

theorem Together.trans {c : ResourceId} (h : g.Together a b) (h' : g.Together b c) :
    g.Together a c :=
  ⟨h.1.trans h'.1, h'.2.trans h.2⟩

/-- Whether lists are the strongly connected components of the hierarchy: each resource is listed
once, together with those that can be reached from each other. -/
structure ListsComponents (g : ResourceGraph) (sccs : List (List ResourceId)) : Prop where
  once : sccs.flatten.Perm g.ids
  inhabited : ∀ scc ∈ sccs, scc ≠ []
  together : ∀ scc ∈ sccs, ∀ a ∈ scc, ∀ b, b ∈ scc ↔ g.Together a b

/-- Whether a component lies on a cycle: it has several members, or one that is narrower than
itself. -/
def isCyclic (g : ResourceGraph) (scc : List ResourceId) : Bool :=
  1 < scc.length || scc.any fun a => a ∈ (g.linksOf a).narrower

/-- A listed component, named by the texts of its members, sorted. -/
def nameListed (g : ResourceGraph) (scc : List ResourceId) : CycleComponent :=
  ⟨sortOn id compare ((g.nodesOf scc).map (·.text))⟩

/-- The components of cycles among the strongly connected components that are listed. -/
def cyclesAmong (g : ResourceGraph) (sccs : List (List ResourceId)) : List CycleComponent :=
  sortOn id compareComponents ((sccs.filter g.isCyclic).map g.nameListed)

namespace ListsComponents

theorem nodup_flatten (hl : g.ListsComponents sccs) : sccs.flatten.Nodup :=
  hl.once.nodup_iff.2 List.nodup_range

theorem nodup (hl : g.ListsComponents sccs) (hscc : scc ∈ sccs) : scc.Nodup :=
  (List.nodup_flatten.1 hl.nodup_flatten).1 scc hscc

theorem lt_size (hl : g.ListsComponents sccs) (hscc : scc ∈ sccs) (ha : a ∈ scc) : a < g.size :=
  List.mem_range.1 (hl.once.mem_iff.1 (List.mem_flatten.2 ⟨scc, hscc, ha⟩))

theorem exists_mem (hl : g.ListsComponents sccs) (ha : a < g.size) : ∃ scc ∈ sccs, a ∈ scc :=
  List.mem_flatten.1 (hl.once.mem_iff.2 (List.mem_range.2 ha))

end ListsComponents

/-- What is reached from itself is in one component with what is narrower than each other. -/
theorem together_iff (hcycle : TransGen g.Narrower a a) :
    g.Together a b ↔ TransGen g.Narrower a b ∧ TransGen g.Narrower b a := by
  refine ⟨fun hab => ?_, fun hab => ⟨hab.1.to_reflTransGen, hab.2.to_reflTransGen⟩⟩
  exact ⟨hcycle.trans_left hab.1, .trans_right hab.2 hcycle⟩

/-- A component has several members just when it has one besides any that is given. -/
theorem one_lt_length_iff (hnodup : scc.Nodup) (ha : a ∈ scc) :
    1 < scc.length ↔ ∃ b ∈ scc, b ≠ a := by
  have hfewer : (scc.erase a).length = scc.length - 1 := List.length_erase_of_mem ha
  have hmore : 1 < scc.length ↔ 0 < (scc.erase a).length := by omega
  rw [hmore, List.length_pos_iff_exists_mem]
  simp only [hnodup.mem_erase_iff, and_comm]

/-- A listed component lies on a cycle just when any of its members does. -/
theorem isCyclic_iff (hl : g.ListsComponents sccs) (hscc : scc ∈ sccs) (ha : a ∈ scc) :
    g.isCyclic scc = true ↔ TransGen g.Narrower a a := by
  have hclass := hl.together scc hscc
  rw [isCyclic, Bool.or_eq_true, decide_eq_true_iff]
  constructor
  · rintro (hseveral | hloop)
    · -- there is another member, and from it the way back
      obtain ⟨b, hb, hother⟩ := (one_lt_length_iff (hl.nodup hscc) ha).1 hseveral
      obtain ⟨hdown, hup⟩ := (hclass a ha b).1 hb
      rcases Relation.reflTransGen_iff_eq_or_transGen.1 hdown with hsame | hdown
      · exact absurd hsame hother
      · exact hdown.trans_left hup
    · obtain ⟨b, hb, hloop⟩ := List.any_eq_true.1 hloop
      obtain ⟨hdown, hup⟩ := (hclass a ha b).1 hb
      have hstep : b ∈ (g.linksOf b).narrower := by simpa using hloop
      have hback : TransGen g.Narrower b a := .head' hstep hup
      exact .trans_right hdown hback
  · intro hcycle
    obtain ⟨b, hfirst, hback⟩ := TransGen.head'_iff.1 hcycle
    by_cases hsame : b = a
    · subst hsame
      have hloop : b ∈ (g.linksOf b).narrower := hfirst
      exact .inr (List.any_eq_true.2 ⟨b, ha, by simpa using hloop⟩)
    · have hb : b ∈ scc := (hclass a ha b).2 ⟨.single hfirst, hback⟩
      exact .inl ((one_lt_length_iff (hl.nodup hscc) ha).2 ⟨b, hb, hsame⟩)

/-- The components on cycles are the same sets, however components are listed. -/
theorem cyclic_perm (h : Sound g) (hl : g.ListsComponents sccs) :
    ((sccs.filter g.isCyclic).map IdSet.ofList).Perm
      (Hierarchy.components (tableAt g.narrowerTable) g.ids) := by
  have hunder : ∀ a b, b ∈ tableAt g.narrowerTable a ↔ TransGen g.Narrower a b :=
    fun _ _ => mem_narrowerTable h
  have hapart : ((sccs.filter g.isCyclic).map IdSet.ofList).Nodup := by
    refine List.pairwise_map.2 ?_
    refine (((List.nodup_flatten.1 hl.nodup_flatten).2).sublist List.filter_sublist).imp_of_mem ?_
    intro scc other hscc _ hdisjoint hsame
    obtain ⟨a, ha⟩ := List.exists_mem_of_ne_nil scc (hl.inhabited scc (List.mem_filter.1 hscc).1)
    exact hdisjoint ha (IdSet.mem_ofList.1 (hsame ▸ IdSet.mem_ofList.2 ha))
  refine (List.perm_ext_iff_of_nodup hapart (Hierarchy.nodup_components List.nodup_range)).2
    fun members => ⟨fun hlisted => ?_, fun hfound => ?_⟩
  · obtain ⟨scc, hcyclic, rfl⟩ := List.mem_map.1 hlisted
    obtain ⟨hscc, hcyclic'⟩ := List.mem_filter.1 hcyclic
    obtain ⟨a, ha⟩ := List.exists_mem_of_ne_nil scc (hl.inhabited scc hscc)
    have hcycle := (isCyclic_iff hl hscc ha).1 hcyclic'
    obtain ⟨members, hfound, hmem, _⟩ := Hierarchy.exists_mem_components hunder
      (fun _ _ hab => List.mem_range.2 (narrower_transGen_lt h hab).1) hcycle hcycle
    have hsame : IdSet.ofList scc = members := by
      refine IdSet.ext fun b => ?_
      rw [IdSet.mem_ofList, hl.together scc hscc a ha b, together_iff hcycle]
      exact (mem_class h ((cycleClasses_perm g).mem_iff.2 hfound) hmem).symm
    rwa [hsame]
  · obtain ⟨a, hcycle, hclass⟩ := Hierarchy.exists_of_mem_components hunder hfound
    obtain ⟨scc, hscc, ha⟩ := hl.exists_mem (narrower_transGen_lt h hcycle).1
    refine List.mem_map.2 ⟨scc, List.mem_filter.2 ⟨hscc, (isCyclic_iff hl hscc ha).2 hcycle⟩, ?_⟩
    refine IdSet.ext fun b => ?_
    rw [IdSet.mem_ofList, hl.together scc hscc a ha b, together_iff hcycle, hclass]

/-- The name of a listed component is that of the set of its members. -/
theorem nameListed_eq (hnodup : scc.Nodup) : g.nameListed scc = g.componentOf (.ofList scc) := by
  have hsameIds : scc.Perm (IdSet.ofList scc).toList :=
    (List.perm_ext_iff_of_nodup hnodup (IdSet.nodup _)).2 fun _ => IdSet.mem_ofList.symm
  have hsameTexts : ((g.nodesOf scc).map (·.text)).Perm
      ((g.nodesOf (IdSet.ofList scc).toList).map (·.text)) :=
    (hsameIds.filterMap _).map _
  exact congrArg CycleComponent.mk (sortOn_eq_of_perm hsameTexts fun _ _ _ _ hsame => hsame)

/-- The components of cycles do not depend on how strongly connected components are listed. -/
theorem cyclesAmong_eq (h : Sound g) (hl : g.ListsComponents sccs) :
    g.cyclesAmong sccs = g.cycleComponents := by
  have hnamed : (sccs.filter g.isCyclic).map g.nameListed =
      ((sccs.filter g.isCyclic).map IdSet.ofList).map g.componentOf := by
    rw [List.map_map]
    exact List.map_congr_left fun scc hscc => nameListed_eq (hl.nodup (List.mem_filter.1 hscc).1)
  rw [cyclesAmong, hnamed]
  exact sortOn_eq_of_perm ((cyclic_perm h hl).map _) fun _ _ _ _ hsame => hsame

end ResourceGraph

open ResourceGraph

/-- Statistics of a reachable graph name the cycles of its hierarchy: each concept that is narrower
than itself lies in one component, with those that are narrower than each other, and the hierarchy
is acyclic just when there is no component. Any listing of the strongly connected components leads
to the same components of cycles. -/
theorem cycles_named (g : ResourceGraph) (hreach : Reachable g) :
    ∃ s classes, g.checkedStats = .ok s ∧ s.cycles = g.cycleComponents ∧
      g.NamesCycles s.cycles classes ∧
      (g.isAcyclic = true ↔ g.cycleComponents = []) ∧
      ∀ sccs, g.ListsComponents sccs → g.cyclesAmong sccs = g.cycleComponents :=
  have hsound := hreach.sound
  ⟨g.stats, g.cycleClasses, g.checkedStats_eq, rfl, namesCycles hsound,
    isAcyclic_iff_cycleComponents hsound, fun _ hlisted => cyclesAmong_eq hsound hlisted⟩

/-- Statements about three concepts in a ring, and one below them. -/
def ringStatements : List Rdf.Triple := [
  ⟨.iri "urn:b", "http://www.w3.org/2004/02/skos/core#broader", .node (.iri "urn:a")⟩,
  ⟨.iri "urn:c", "http://www.w3.org/2004/02/skos/core#broader", .node (.iri "urn:b")⟩,
  ⟨.iri "urn:a", "http://www.w3.org/2004/02/skos/core#broader", .node (.iri "urn:c")⟩,
  ⟨.iri "urn:d", "http://www.w3.org/2004/02/skos/core#broader", .node (.iri "urn:c")⟩]

/-- The graph of these statements. -/
def ringHierarchy : ResourceGraph where
  configuration := {}
  resources := #[
    { id := 0, node := .iri "urn:a", kind := .concept,
      links := { narrower := .ofList [1], broader := .ofList [2] } },
    { id := 1, node := .iri "urn:b", kind := .concept,
      links := { narrower := .ofList [2], broader := .ofList [0] } },
    { id := 2, node := .iri "urn:c", kind := .concept,
      links := { narrower := .ofList [0, 3], broader := .ofList [1] } },
    { id := 3, node := .iri "urn:d", kind := .concept,
      links := { broader := .ofList [2] } }]
  index := ⟨[(.iri "urn:a", 0), (.iri "urn:b", 1), (.iri "urn:c", 2), (.iri "urn:d", 3)]⟩
  counters := { triples := 4 }

theorem ringHierarchy_reachable : Reachable ringHierarchy := by
  have htaken : (ResourceGraph.new {}).ingestAll ringStatements = .ok ringHierarchy := by
    decide +kernel
  exact (Reachable.new _).ingestAll htaken

theorem ringHierarchy_steps : ringHierarchy.Narrower 0 1 ∧ ringHierarchy.Narrower 1 2 ∧
    ringHierarchy.Narrower 2 0 := by
  have hsteps : 1 ∈ (ringHierarchy.linksOf 0).narrower ∧ 2 ∈ (ringHierarchy.linksOf 1).narrower ∧
      0 ∈ (ringHierarchy.linksOf 2).narrower := by decide
  exact hsteps

/-- Nothing is narrower than the concept below the ring. -/
theorem ringHierarchy_below {a : ResourceId} (h : ReflTransGen ringHierarchy.Narrower 3 a) :
    a = 3 := by
  rcases ReflTransGen.cases_head h with rfl | ⟨b, hstep, _⟩
  · rfl
  · have hbottom : (ringHierarchy.linksOf 3).narrower = ∅ := by decide
    have hmem : b ∈ (ringHierarchy.linksOf 3).narrower := hstep
    rw [hbottom] at hmem
    exact absurd hmem (IdSet.not_mem_empty b)

theorem ringHierarchy_together {a : Nat} : ringHierarchy.Together 0 a ↔ a ∈ [0, 1, 2] := by
  obtain ⟨hfirst, hsecond, hthird⟩ := ringHierarchy_steps
  constructor
  · rintro ⟨hdown, hup⟩
    have hinside : a < 4 := by
      rcases Relation.reflTransGen_iff_eq_or_transGen.1 hdown with rfl | hdown
      · decide
      · exact (narrower_transGen_lt ringHierarchy_reachable.sound hdown).2
    have hnotBelow : a ≠ 3 := by
      rintro rfl
      cases ringHierarchy_below hup
    have hsmall : a = 0 ∨ a = 1 ∨ a = 2 := by omega
    simpa using hsmall
  · intro ha
    simp only [List.mem_cons, List.not_mem_nil, or_false] at ha
    rcases ha with rfl | rfl | rfl
    · exact ⟨.refl, .refl⟩
    · exact ⟨.single hfirst, .tail (.single hsecond) hthird⟩
    · exact ⟨.tail (.single hfirst) hsecond, .single hthird⟩

theorem ringHierarchy_listed : ringHierarchy.ListsComponents [[3], [0, 1, 2]] := by
  refine { once := by decide, inhabited := by decide, together := ?_ }
  intro scc hscc a ha b
  simp only [List.mem_cons, List.not_mem_nil, or_false] at hscc
  rcases hscc with rfl | rfl
  · cases List.mem_singleton.1 ha
    rw [List.mem_singleton]
    exact ⟨fun hsame => hsame ▸ ⟨.refl, .refl⟩, fun htogether => ringHierarchy_below htogether.1⟩
  · have hring := ringHierarchy_together.2 ha
    rw [← ringHierarchy_together]
    exact ⟨hring.symm.trans, hring.trans⟩

theorem cycles_named_ring : Reachable ringHierarchy ∧ ringHierarchy.cycleComponents ≠ [] ∧
    ringHierarchy.cyclesAmong [[3], [0, 1, 2]] = ringHierarchy.cycleComponents ∧
    ∃ s classes, ringHierarchy.checkedStats = .ok s ∧
      ringHierarchy.NamesCycles s.cycles classes ∧ classes.countP (0 ∈ ·) = 1 := by
  obtain ⟨s, classes, hchecked, _, hnamed, hacyclic, hlisted⟩ :=
    cycles_named ringHierarchy ringHierarchy_reachable
  have hcyclic : ringHierarchy.isAcyclic = false := by decide +kernel
  obtain ⟨hfirst, hsecond, hthird⟩ := ringHierarchy_steps
  have hcycle : TransGen ringHierarchy.Narrower 0 0 :=
    ((TransGen.single hfirst).tail hsecond).tail hthird
  refine ⟨ringHierarchy_reachable, fun hnone => ?_, hlisted _ ringHierarchy_listed, s, classes,
    hchecked, hnamed, hnamed.once 0 hcycle⟩
  rw [hacyclic.2 hnone] at hcyclic
  cases hcyclic

end Thesaurus
