import Mathlib.Data.Fintype.Card
import Mathlib.Data.Fintype.EquivFin
import Mathlib.Logic.Relation
import Thesaurus.Proofs.Forest.Siblings
import Thesaurus.Proofs.Graph.Sound
import Thesaurus.Proofs.Hierarchy.Stats

/-!
# Cycles of the hierarchy

What is computed about cycles is what the relation between a concept and a narrower one says.

- `Hierarchy.mem_descendants`: descendants are what is reached in one or more steps.
- `Hierarchy.mem_peel_of_leading`, `Hierarchy.leads_of_mem_peel`: peeling leaves the largest set of
  ids of which each leads to another.
- `wellFounded_of_acyclic`: without cycles there are no endless descents.
- `ResourceGraph.isAcyclic_iff`: a hierarchy is acyclic when no concept is narrower than itself.
- `ResourceGraph.exists_component`, `ResourceGraph.component_class`: the components of cycles are
  the classes of concepts each of which is narrower than every other.
-/

namespace Thesaurus

open Relation (ReflTransGen TransGen)

/-- Without cycles there are no endless descents, since there are only so many ids. -/
theorem wellFounded_of_acyclic {R : ResourceId → ResourceId → Prop} (bound : Nat)
    (hbound : ∀ a b, R a b → a < bound) (hacyclic : ∀ a, ¬ TransGen R a a) : WellFounded R := by
  -- the ids below the bound are finitely many, and all descents lead through them
  let below : Fin bound → Fin bound → Prop := fun a b => TransGen R a b
  have htransitive : IsTrans (Fin bound) below := ⟨fun _ _ _ hab hbc => hab.trans hbc⟩
  have hirreflexive : Std.Irrefl below := ⟨fun a haa => hacyclic a haa⟩
  have hwf : WellFounded below := Finite.wellFounded_of_trans_of_irrefl below
  have haccessible : ∀ a : Fin bound, Acc R a := by
    intro a
    induction a using hwf.induction with
    | _ a ih =>
      refine Acc.intro _ fun b hb => ?_
      exact ih ⟨b, hbound b a hb⟩ (TransGen.single hb)
  exact ⟨fun a => Acc.intro a fun b hb => haccessible ⟨b, hbound b a hb⟩⟩

namespace Hierarchy

variable {next : ResourceId → List ResourceId} {fresh : IdSet}
  {pending remaining : List ResourceId} {id other : ResourceId} {bound : Nat}

/-- Whether an id leads to another in one step. -/
def Leads (next : ResourceId → List ResourceId) (a b : ResourceId) : Prop :=
  b ∈ next a

/-! ## Reaching -/

/-- What is reached was pending, or something pending leads to it. -/
theorem reach_sound (h : other ∈ reach next fresh pending) :
    ∃ p ∈ pending, ReflTransGen (Leads next) p other := by
  fun_induction reach next fresh pending with
  | case1 => cases h
  | case2 fresh id rest hmem ih =>
    rcases List.mem_cons.1 h with rfl | h
    · exact ⟨other, List.mem_cons_self, .refl⟩
    · obtain ⟨p, hp, hleads⟩ := ih h
      rcases List.mem_append.1 hp with hp | hp
      · exact ⟨id, List.mem_cons_self, .head hp hleads⟩
      · exact ⟨p, List.mem_cons_of_mem _ hp, hleads⟩
  | case3 fresh id rest hnotFresh ih =>
    obtain ⟨p, hp, hleads⟩ := ih h
    exact ⟨p, List.mem_cons_of_mem _ hp, hleads⟩

/-- What is pending and fresh is reached, and so is what is fresh and follows on something that is
reached. -/
theorem reach_closed (next : ResourceId → List ResourceId) (fresh : IdSet)
    (pending : List ResourceId) :
    (∀ p ∈ pending, p ∈ fresh → p ∈ reach next fresh pending) ∧
    ∀ a ∈ reach next fresh pending, ∀ b ∈ next a, b ∈ fresh → b ∈ reach next fresh pending := by
  fun_induction reach next fresh pending with
  | case1 => exact ⟨fun p hp => absurd hp List.not_mem_nil, fun a ha => absurd ha List.not_mem_nil⟩
  | case2 fresh id rest hmem ih =>
    obtain ⟨hpendingReached, hclosed⟩ := ih
    -- the id itself is listed in front, and any other fresh id stays fresh
    have hlater : ∀ b, b ∈ fresh →
        (b ∈ fresh.erase id → b ∈ reach next (fresh.erase id) (next id ++ rest)) →
        b ∈ id :: reach next (fresh.erase id) (next id ++ rest) := by
      intro b hb hreached
      by_cases hsame : b = id
      · exact hsame ▸ List.mem_cons_self
      · exact List.mem_cons_of_mem _ (hreached (IdSet.mem_erase.2 ⟨hb, hsame⟩))
    refine ⟨fun p hp hfresh => ?_, fun a ha b hb hfresh => ?_⟩
    · rcases List.mem_cons.1 hp with rfl | hp
      · exact List.mem_cons_self
      · exact hlater p hfresh fun h => hpendingReached p (List.mem_append_right _ hp) h
    · rcases List.mem_cons.1 ha with rfl | ha
      · exact hlater b hfresh fun h => hpendingReached b (List.mem_append_left _ hb) h
      · exact hlater b hfresh fun h => hclosed a ha b hb h
  | case3 fresh id rest hnotFresh ih =>
    obtain ⟨hpendingReached, hclosed⟩ := ih
    refine ⟨fun p hp hfresh => ?_, hclosed⟩
    rcases List.mem_cons.1 hp with rfl | hp
    · exact absurd hfresh hnotFresh
    · exact hpendingReached p hp hfresh

/-- The descendants of an id are what it leads to in one or more steps. -/
theorem mem_descendants (hbound : ∀ a b, Leads next a b → b < bound) :
    other ∈ descendants next bound id ↔ TransGen (Leads next) id other := by
  refine IdSet.mem_ofList.trans ⟨fun h => ?_, fun h => ?_⟩
  · obtain ⟨p, hp, hleads⟩ := reach_sound h
    exact .head' hp hleads
  · obtain ⟨hpendingReached, hclosed⟩ := reach_closed next (IdSet.below bound) (next id)
    induction h with
    | single hfirst => exact hpendingReached _ hfirst (IdSet.mem_below.2 (hbound _ _ hfirst))
    | tail _ hlast ih => exact hclosed _ ih _ hlast (IdSet.mem_below.2 (hbound _ _ hlast))

/-! ## Components -/

variable {under : ResourceId → IdSet} {R : ResourceId → ResourceId → Prop}
  {ids : List ResourceId} {members : IdSet}

theorem mem_component (hunder : ∀ a b, b ∈ under a ↔ TransGen R a b) :
    other ∈ component under id ↔ TransGen R id other ∧ TransGen R other id := by
  simp [component, hunder]

/-- A component is the class of an id that leads to itself. -/
theorem exists_of_mem_components (hunder : ∀ a b, b ∈ under a ↔ TransGen R a b)
    (h : members ∈ components under ids) :
    ∃ a, TransGen R a a ∧ ∀ b, b ∈ members ↔ TransGen R a b ∧ TransGen R b a := by
  obtain ⟨a, ha, rfl⟩ := List.mem_map.1 h
  obtain ⟨_, hfirst⟩ := List.mem_filter.1 ha
  have hinside : a ∈ component under a :=
    IdSet.mem_def.2 (List.mem_of_mem_head? (by simpa using hfirst))
  exact ⟨a, ((mem_component hunder).1 hinside).1, fun b => mem_component hunder⟩

/-- Ids that lead to each other have one component. -/
theorem component_eq (hunder : ∀ a b, b ∈ under a ↔ TransGen R a b) (hother : TransGen R id other)
    (hback : TransGen R other id) : component under other = component under id := by
  refine IdSet.ext fun b => ?_
  rw [mem_component hunder, mem_component hunder]
  exact ⟨fun hb => ⟨hother.trans hb.1, hb.2.trans hback⟩,
    fun hb => ⟨hback.trans hb.1, hb.2.trans hother⟩⟩

/-- The component of an id that leads to itself has a least member. -/
theorem exists_least (hunder : ∀ a b, b ∈ under a ↔ TransGen R a b) (hcycle : TransGen R id id) :
    ∃ least, (component under id).toList.head? = some least ∧ TransGen R id least ∧
      TransGen R least id := by
  have hinside : id ∈ component under id := (mem_component hunder).2 ⟨hcycle, hcycle⟩
  cases hlisted : (component under id).toList with
  | nil =>
    rw [IdSet.mem_def, hlisted] at hinside
    cases hinside
  | cons least rest =>
    have hmem : least ∈ component under id := IdSet.mem_def.2 (hlisted ▸ List.mem_cons_self)
    exact ⟨least, rfl, (mem_component hunder).1 hmem⟩

/-- Ids that lead to each other lie in one component. -/
theorem exists_mem_components (hunder : ∀ a b, b ∈ under a ↔ TransGen R a b)
    (hids : ∀ a b, TransGen R a b → a ∈ ids) (hother : TransGen R id other)
    (hback : TransGen R other id) :
    ∃ members ∈ components under ids, id ∈ members ∧ other ∈ members := by
  have hcycle : TransGen R id id := hother.trans hback
  -- the component is found at its least member, which has the same component
  obtain ⟨least, hfirst, hdown, hup⟩ := exists_least hunder hcycle
  have hsame : component under least = component under id := component_eq hunder hdown hup
  refine ⟨component under least,
    List.mem_map_of_mem (List.mem_filter.2 ⟨hids _ _ hup, ?_⟩), ?_, ?_⟩
  · rw [decide_eq_true_iff, hsame, hfirst]
  · rw [hsame]
    exact (mem_component hunder).2 ⟨hcycle, hcycle⟩
  · rw [hsame]
    exact (mem_component hunder).2 ⟨hother, hback⟩

/-! ## Peeling -/

/-- Ids of which each leads to another of them are never peeled off. -/
theorem mem_peel_of_leading {stays : ResourceId → Prop}
    (hleads : ∀ a, stays a → ∃ b, Leads next a b ∧ stays b) (hin : ∀ a, stays a → a ∈ remaining) :
    ∀ a, stays a → a ∈ peel next remaining := by
  fun_induction peel next remaining with
  | case1 remaining hsmaller ih =>
    refine ih fun a ha => List.mem_filter.2 ⟨hin a ha, ?_⟩
    obtain ⟨b, hleads', hb⟩ := hleads a ha
    exact List.any_eq_true.2 ⟨b, hleads', by simpa using hin b hb⟩
  | case2 remaining hdone => exact hin

/-- Whatever is left leads to something that is left. -/
theorem leads_of_mem_peel :
    ∀ a ∈ peel next remaining, ∃ b, Leads next a b ∧ b ∈ peel next remaining := by
  fun_induction peel next remaining with
  | case1 remaining hsmaller ih => exact ih
  | case2 remaining hdone =>
    -- nothing was removed, so that everything leads to something
    have hall : (leading next remaining).length = remaining.length :=
      Nat.le_antisymm (List.length_filter_le _ _) (Nat.le_of_not_lt hdone)
    intro a ha
    have hleads := List.length_filter_eq_length_iff.1 hall a ha
    obtain ⟨b, hb, hmem⟩ := List.any_eq_true.1 hleads
    exact ⟨b, hb, by simpa using hmem⟩

end Hierarchy

namespace ResourceGraph

/-- Whether one concept is narrower than another, which comes first. -/
def Narrower (g : ResourceGraph) (a b : ResourceId) : Prop :=
  b ∈ (g.linksOf a).narrower

variable {g : ResourceGraph} {a b : ResourceId} {component : CycleComponent}

theorem Narrower.lt (h : Sound g) (hab : g.Narrower a b) : a < g.size ∧ b < g.size :=
  ⟨Sound.lt_size_of_mem (f := (·.narrower)) rfl hab, h.narrower_lt hab⟩

theorem narrower_transGen_lt (h : Sound g) (hab : TransGen g.Narrower a b) :
    a < g.size ∧ b < g.size := by
  induction hab with
  | single hfirst => exact hfirst.lt h
  | tail _ hlast ih => exact ⟨ih.1, (hlast.lt h).2⟩

/-- Whether the hierarchy is found to be acyclic is whether no concept is narrower than itself. -/
theorem isAcyclic_iff (h : Sound g) : g.isAcyclic = true ↔ ∀ a, ¬ TransGen g.Narrower a a := by
  constructor
  · intro hacyclic a hcycle
    -- what lies on a cycle leads to something on a cycle
    have hleads : ∀ a, TransGen g.Narrower a a →
        ∃ b, Hierarchy.Leads g.narrowerOf a b ∧ TransGen g.Narrower b b := by
      intro a hcycle
      obtain ⟨b, hfirst, hback⟩ := TransGen.head'_iff.1 hcycle
      exact ⟨b, hfirst, .tail' hback hfirst⟩
    have hlisted : ∀ a, TransGen g.Narrower a a → a ∈ g.ids := fun a hcycle =>
      List.mem_range.2 (narrower_transGen_lt h hcycle).1
    have hleft := Hierarchy.mem_peel_of_leading hleads hlisted a hcycle
    rw [isAcyclic, List.isEmpty_iff] at hacyclic
    rw [hacyclic] at hleft
    cases hleft
  · intro hacyclic
    by_contra hnotEmpty
    -- narrower concepts would go on for ever in what is left
    have hwf : WellFounded (Function.swap g.Narrower) :=
      wellFounded_of_acyclic g.size (fun a b hab => (Narrower.lt h hab).2)
        fun a hcycle => hacyclic a (Relation.transGen_swap.1 hcycle)
    have hempty : ∀ a, a ∉ Hierarchy.peel g.narrowerOf g.ids := by
      intro a
      induction a using hwf.induction with
      | _ a ih =>
        intro hleft
        obtain ⟨b, hab, hleftToo⟩ := Hierarchy.leads_of_mem_peel a hleft
        exact ih b hab hleftToo
    refine hnotEmpty ?_
    rw [isAcyclic, List.isEmpty_iff]
    exact List.eq_nil_iff_forall_not_mem.2 hempty

/-! ## Components of cycles -/

theorem mem_narrowerTable (h : Sound g) :
    b ∈ tableAt g.narrowerTable a ↔ TransGen g.Narrower a b := by
  unfold tableAt narrowerTable Hierarchy.descendantTable
  rw [Array.getElem?_map]
  by_cases ha : a < g.size
  · simp only [Array.getElem?_range, ha, if_true, Option.map_some, Option.getD_some]
    exact Hierarchy.mem_descendants fun _ _ hab => (Narrower.lt h hab).2
  · simp only [Array.getElem?_range, ha, if_false, Option.map_none, Option.getD_none]
    exact ⟨fun hb => absurd hb (IdSet.not_mem_empty b),
      fun hab => absurd (narrower_transGen_lt h hab).1 ha⟩

/-- The members of a component are shown as text. -/
theorem text_mem_componentOf {members : IdSet} {r : Resource} (hr : g.resources[a]? = some r)
    (ha : a ∈ members) : r.node.text ∈ (g.componentOf members).members := by
  refine (sortOn_perm ..).mem_iff.2 (List.mem_map_of_mem (List.mem_filterMap.2 ⟨a, ha, ?_⟩))
  rw [hr]
  rfl

theorem mem_cycleComponents : component ∈ g.cycleComponents ↔
    ∃ members ∈ Hierarchy.components (tableAt g.narrowerTable) g.ids,
      g.componentOf members = component :=
  (sortOn_perm ..).mem_iff.trans List.mem_map

/-- A component of cycles names all concepts that are narrower than some concept and also the other
way round. -/
theorem component_class (h : Sound g) (hcomponent : component ∈ g.cycleComponents) :
    ∃ a, TransGen g.Narrower a a ∧ ∀ (b : ResourceId) r, g.resources[b]? = some r →
      TransGen g.Narrower a b → TransGen g.Narrower b a → r.node.text ∈ component.members := by
  obtain ⟨members, hmembers, rfl⟩ := mem_cycleComponents.1 hcomponent
  obtain ⟨a, hcycle, hclass⟩ :=
    Hierarchy.exists_of_mem_components (fun _ _ => mem_narrowerTable h) hmembers
  exact ⟨a, hcycle, fun b r hr hdown hup => text_mem_componentOf hr ((hclass b).2 ⟨hdown, hup⟩)⟩

/-- Concepts that are narrower than each other are named by one component. -/
theorem exists_component {r s : Resource} (h : Sound g) (hr : g.resources[a]? = some r)
    (hs : g.resources[b]? = some s) (hdown : TransGen g.Narrower a b)
    (hup : TransGen g.Narrower b a) :
    ∃ component ∈ g.cycleComponents,
      r.node.text ∈ component.members ∧ s.node.text ∈ component.members := by
  obtain ⟨members, hmembers, ha, hb⟩ := Hierarchy.exists_mem_components
    (fun _ _ => mem_narrowerTable h)
    (fun _ _ hab => List.mem_range.2 (narrower_transGen_lt h hab).1) hdown hup
  exact ⟨_, mem_cycleComponents.2 ⟨members, hmembers, rfl⟩, text_mem_componentOf hr ha,
    text_mem_componentOf hs hb⟩

end ResourceGraph

end Thesaurus
