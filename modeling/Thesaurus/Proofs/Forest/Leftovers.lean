import Thesaurus.Proofs.Forest.Promotion
import Thesaurus.Proofs.Forest.Unambiguous

/-!
# When nothing is left over

A member is left over in a context if what leads to it there was placed elsewhere, where it does not
lead to the member. If no concept belongs to two contexts, there is no such place.

- `ResourceGraph.ContextsApart`: whether no concept belongs to two schemes or collections.
- `Descends`: what leads to a member in a context.
- `explores_descends`: wherever it is placed, it leads to the member.
- `members_visited`: without cycles no members are left over.
- `unambiguous_of_acyclic`: so it does not matter which one would be taken up first.
-/

namespace Thesaurus

open Traversal Relation

/-- Whether no concept belongs to two schemes or collections. -/
def ResourceGraph.ContextsApart (g : ResourceGraph) : Prop :=
  ∀ k l, g.Holds k → g.Holds l → k.kind.gathers = true → l.kind.gathers = true →
    ∀ c ∈ (g.contextOf k).members, c ∈ (g.contextOf l).members → k = l

namespace Traversal

/-- Whether a resource leads to a member in a context: the context itself to members without a
broader concept there, and members to narrower ones. -/
def Descends (g : ResourceGraph) (k : Resource) (a b : ResourceId) : Prop :=
  b ∈ (g.contextOf k).members ∧
    ((a = k.id ∧ (g.contextOf k).hasBroader g b = false) ∨
      (a ∈ (g.contextOf k).members ∧ g.Narrower a b))

/-- Whether a resource leads to a member in some context that has a hierarchy. -/
def DescendsInSome (g : ResourceGraph) (a b : ResourceId) : Prop :=
  ∃ k, g.Holds k ∧ k.kind.gathers = true ∧ k.hasOrder = false ∧ Descends g k a b

variable {g : ResourceGraph} {path : List Resource} {top : Frame} {below : List Frame}
  {p : Progress} {k r : Resource} {a b : ResourceId}

/-- There is an edge from a context to each member without a broader concept in it. -/
theorem exists_edge_of_member (hk : k.kind.gathers = true)
    (hordered : k.hasOrder = false) (hmember : b ∈ (g.contextOf k).members)
    (htop : (g.contextOf k).hasBroader g b = false) : ∃ e ∈ edgesBelow g path k, e.target = b := by
  obtain ⟨hdeclared, hconcept⟩ := ResourceGraph.mem_contextOf.1 hmember
  have hedges : k.kind.isCollection = true → ∃ e ∈ memberEdges g k, e.target = b := by
    intro hcollection
    rw [Resource.declaredMembers_of_isCollection hcollection] at hdeclared
    have hedge : memberEdge? g (g.contextOf k) b =
        some { target := b, context := some k.id } := by
      unfold memberEdge?
      rw [hconcept, htop]
      rfl
    rw [memberEdges, if_neg (by rw [hordered]; decide)]
    exact ⟨_, List.mem_filterMap.2 ⟨b, hdeclared, hedge⟩, rfl⟩
  -- schemes and collections without an order lead to their topmost members
  unfold edgesBelow
  cases hkind : k.kind with
  | unknown =>
    rw [hkind] at hk
    cases hk
  | concept =>
    rw [hkind] at hk
    cases hk
  | conceptScheme =>
    refine ⟨_, List.mem_map_of_mem (List.mem_filter.2 ⟨hmember, ?_⟩), rfl⟩
    rw [htop]
    simp
  | collection => exact hedges (by rw [hkind]; rfl)
  | orderedCollection => exact hedges (by rw [hkind]; rfl)

/-- A concept outside all schemes is in the context of a collection only. -/
theorem isCollection_of_outside (h : Sound g) (hk : g.Holds k) (hgathers : k.kind.gathers = true)
    (hmember : a ∈ (g.contextOf k).members) (houtside : g.shownOutside a = true) :
    k.kind.isCollection = true := by
  obtain ⟨hdeclared, _⟩ := ResourceGraph.mem_contextOf.1 hmember
  by_cases hscheme : k.kind = .conceptScheme
  · rw [Resource.declaredMembers, if_pos hscheme, ← hk.linksOf] at hdeclared
    have hinScheme := (h.linked.schemeMember_iff k.id a).1 hdeclared
    rw [shownOutside_eq h, IdSet.isEmpty] at houtside
    rw [IdSet.mem_def, List.isEmpty_iff.1 houtside] at hinScheme
    cases hinScheme
  · cases hkind : k.kind <;> simp_all [Kind.gathers, Kind.isCollection]

/-- A concept in a collection is in no scheme if it belongs to one context only. -/
theorem outside_of_collection (h : Sound g) (hcontexts : g.ContextsApart) (hk : g.Holds k)
    (hcollection : k.kind.isCollection = true) (hmember : b ∈ (g.contextOf k).members) :
    g.shownOutside b = true := by
  rw [shownOutside_eq h]
  by_contra hinside
  obtain ⟨s, hs⟩ := List.isEmpty_eq_false_iff_exists_mem.1 (Bool.eq_false_iff.2 hinside)
  have hmember' := (h.linked.schemeMember_iff s b).2 hs
  have hscheme := h.linked.scheme_kind s b hmember'
  obtain ⟨l, hl, rfl⟩ := ResourceGraph.exists_held h.indexed
    (ResourceGraph.lt_size_of_kindOf (by rw [hscheme]; exact Kind.noConfusion))
  rw [hl.kindOf] at hscheme
  have hdeclared : b ∈ l.declaredMembers := by
    rw [Resource.declaredMembers, if_pos hscheme, ← hl.linksOf]
    exact hmember'
  obtain ⟨_, hconcept⟩ := ResourceGraph.mem_contextOf.1 hmember
  have hsame := hcontexts k l hk hl (Kind.gathers_of_isCollection hcollection)
    (by rw [hscheme]; rfl) b hmember (ResourceGraph.mem_contextOf.2 ⟨hdeclared, hconcept⟩)
  rw [hsame, hscheme] at hcollection
  cases hcollection

/-- Wherever a member is placed, it leads to the members that are narrower. -/
theorem mem_narrowerIn_of_descends (h : Sound g) (hcontexts : g.ContextsApart) (hk : g.Holds k)
    (hgathers : k.kind.gathers = true) (hordered : k.hasOrder = false)
    (hupper : r.id ∈ (g.contextOf k).members) (hlower : b ∈ (g.contextOf k).members)
    (hnarrower : g.Narrower r.id b) (htrail : g.Trail (r :: path)) : b ∈ g.narrowerIn path r := by
  obtain ⟨hfits, htrail⟩ := htrail
  have hconcept : r.kind = .concept := hfits.holds.kindOf ▸ (ResourceGraph.mem_contextOf.1 hupper).2
  have hnarrower' : b ∈ r.links.narrower := by
    rw [← hfits.holds.linksOf]
    exact hnarrower
  have hscope := hfits.in_scope hconcept
  unfold ResourceGraph.InScope at hscope
  unfold ResourceGraph.narrowerIn
  -- the nearest context is the one of both members, or both are outside
  cases hnearest : nearestContext? path with
  | none =>
    rw [hnearest] at hscope
    have hcollection := isCollection_of_outside h hk hgathers hupper hscope
    exact List.mem_filter.2 ⟨hnarrower', outside_of_collection h hcontexts hk hcollection hlower⟩
  | some l =>
    rw [hnearest] at hscope
    obtain ⟨honPath, hgathers'⟩ := mem_of_nearestContext? hnearest
    have hmember : r.id ∈ (g.contextOf l).members :=
      ResourceGraph.mem_contextOf.2 ⟨hscope.1, hfits.holds.kindOf.trans hconcept⟩
    obtain rfl := hcontexts k l hk (htrail.holds l honPath) hgathers hgathers' r.id hupper hmember
    dsimp only
    rw [if_neg (by rw [hordered]; decide)]
    exact List.mem_filter.2
      ⟨hnarrower', decide_eq_true (ResourceGraph.mem_contextOf.1 hlower).1⟩

/-- Where contexts are apart, traversals follow all that leads to members. -/
theorem explores_descends (h : Sound g) (hcontexts : g.ContextsApart) :
    Explores g (fun _ => True) (DescendsInSome g) where
  handsDown := fun _ _ _ _ _ _ => trivial
  known := fun a b hab => by
    obtain ⟨k, _, _, _, hmember, _⟩ := hab
    rw [(ResourceGraph.mem_contextOf.1 hmember).2]
    rfl
  followed := fun path r htrail _ b hb => by
    obtain ⟨k, hk, hgathers, hordered, hmember, ⟨hsame, htop⟩ | ⟨hupper, hnarrower⟩⟩ := hb
    · obtain rfl := htrail.1.holds.eq hk hsame
      exact exists_edge_of_member hgathers hordered hmember htop
    · have hlisted := mem_narrowerIn_of_descends h hcontexts hk hgathers hordered hupper hmember
        hnarrower htrail
      have hconcept : r.kind = .concept :=
        htrail.1.holds.kindOf ▸ (ResourceGraph.mem_contextOf.1 hupper).2
      unfold edgesBelow
      rw [hconcept]
      exact ⟨_, List.mem_map_of_mem hlisted, rfl⟩

/-! ## Stages -/

/-- Wherever a stage is passed, what was closed leads to what was closed before, or back. -/
theorem Passes.explored {D : Resource → Prop} {R : ResourceId → ResourceId → Prop} {s : Stage}
    (h : Sound g) (hE : Explores g D R) (hD : ∀ r, D r) (hpasses : Passes g s) :
    s.Valid g ∧ ∃ order, Explored g D R order s := by
  refine hpasses.rule (I := fun s => ∃ order, Explored g D R order s)
    (J := fun p => p.Explored g D R) h (start_explored g D R) ?_ ?_ ?_
  · rintro e p frame _ _ ⟨order, hx⟩ hopened
    exact ⟨order, hx.opened hE rfl trivial hopened trivial (hD _)⟩
  · intro s next hvalid hx hsteps
    exact hsteps.explored hE h hvalid hx
  · rintro s tree later hvalid ⟨order, hx⟩ hsteps
    cases hsteps with
    | finished hpending hleftover => exact ⟨_, hx.close hpending⟩

/-- No concept is open while members of a context are placed, as only collections are above it. -/
theorem kind_ne_concept_of_gathers (h : Sound g) {q : Resource} (htrail : g.Trail (k :: path))
    (hgathers : k.kind.gathers = true) (hq : q ∈ k :: path) : q.kind ≠ .concept := by
  have hother : k.kind ≠ .concept := by
    intro hkind
    rw [hkind] at hgathers
    cases hgathers
  rcases List.mem_cons.1 hq with rfl | habove
  · exact hother
  · intro hconcept
    have hcollection := ResourceGraph.Trail.collections h htrail habove hother
    rw [hconcept] at hcollection
    cases hcollection

/-- Where contexts are apart and there are no cycles, no members are left over. -/
theorem members_visited (h : Sound g) (hacyclic : g.Acyclic) (hcontexts : g.ContextsApart)
    (hpasses : Passes g ⟨top :: below, p⟩) (hpending : top.pending = [])
    (hgathers : top.resource.kind.gathers = true) (hordered : top.resource.hasOrder = false) :
    ∀ a ∈ (g.contextOf top.resource).members, a ∉ p.unvisited := by
  obtain ⟨hvalid, order, hx⟩ :=
    hpasses.explored h (explores_descends h hcontexts) fun _ => trivial
  obtain ⟨hseated, _⟩ := hvalid.seated
  have hholds := hseated.shown.holds
  have hknown : ∀ {a}, a ∈ (g.contextOf top.resource).members → (g.kindOf a).isKnown = true := by
    intro a hmember
    rw [(ResourceGraph.mem_contextOf.1 hmember).2]
    rfl
  -- what was closed leads to visited resources
  have hmet : ∀ {x a}, a ∈ order ∨ Reported g p x a → a ∉ p.unvisited := fun hdone =>
    hdone.elim (hx.visited _) (hx.backVisited _ _)
  -- by induction on what is broader: a member is below another, or the context leads to it
  intro a
  induction a using hacyclic.climb_narrower h |>.induction with
  | _ a ih =>
    intro hmember
    cases hbroader : (g.contextOf top.resource).hasBroader g a with
    | false =>
      have hdescends : DescendsInSome g top.resource.id a :=
        ⟨top.resource, hholds, hgathers, hordered, hmember, .inl ⟨rfl, hbroader⟩⟩
      rcases hx.followed.1 a hdescends with ⟨e, he, _⟩ | hdone | hplacing
      · rw [hpending] at he
        cases he
      · exact hmet hdone
      · cases hplacing
    | true =>
      have hhierarchy : (g.contextOf top.resource).flat = false := hordered
      rw [Context.hasBroader, Context.restrict, hhierarchy, if_neg (by decide), Bool.not_eq_true']
        at hbroader
      obtain ⟨b, hb⟩ := List.isEmpty_eq_false_iff_exists_mem.1 hbroader
      obtain ⟨hupper, hupperMember⟩ := IdSet.mem_inter.1 hb
      have hnarrower : g.Narrower b a := (h.linked.narrower_iff b a).2 hupper
      have hdescends : DescendsInSome g b a :=
        ⟨top.resource, hholds, hgathers, hordered, hmember, .inr ⟨hupperMember, hnarrower⟩⟩
      rcases hx.found b (hknown hupperMember) (ih b hnarrower hupperMember) with hclosed |
        ⟨q, hq, hsame⟩
      · exact hmet (hx.ordered.leads hclosed hdescends)
      · refine absurd ?_ (kind_ne_concept_of_gathers h hvalid.seated.trail hgathers hq)
        rw [← (hvalid.seated.holds q hq).kindOf, hsame]
        exact (ResourceGraph.mem_contextOf.1 hupperMember).2

end Traversal

/-- If no concept belongs to two contexts and there are no cycles, it does not matter what would be
taken up first, as nothing is left over. -/
theorem unambiguous_of_acyclic {g : ResourceGraph} (h : Sound g) (horders : g.OrdersExact)
    (hacyclic : g.Acyclic) (hcontexts : g.ContextsApart)
    (hmode : g.configuration.conceptSchemes = true ∨ g.configuration.collections = false) :
    g.Unambiguous where
  members := fun top below p c hpasses hpending hopens a hmember hunvisited b hlower => by
    obtain ⟨hvalid, _⟩ := hpasses.distinct h horders
    obtain ⟨hseated, _⟩ := hvalid.seated
    rw [hseated.opens_eq, ResourceGraph.contextOf?] at hopens
    split at hopens
    · next hgathers =>
      cases hopens
      cases hordered : top.resource.hasOrder with
      | false =>
        exact absurd hunvisited
          (members_visited h hacyclic hcontexts hpasses hpending hgathers hordered a hmember)
      | true =>
        -- nothing is narrower where members have an order
        have hflat : (g.contextOf top.resource).flat = true := hordered
        rw [Context.restrict, if_pos hflat] at hlower
        exact absurd hlower (IdSet.not_mem_empty b)
    · cases hopens
  others := fun planned trees p hplannedEq hgrown a hleft => by
    obtain ⟨ph⟩ := exists_phases h
    rw [roots_eq h] at hplannedEq
    cases hplannedEq
    rw [ph.grown_roots] at hgrown
    cases hgrown
    rw [IdSet.mem_def, ph.nothing_left h horders hacyclic hmode] at hleft
    cases hleft

end Thesaurus
