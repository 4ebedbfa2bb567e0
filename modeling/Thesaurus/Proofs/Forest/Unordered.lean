import Thesaurus.Proofs.Forest.Closing

/-!
# Forests of renamed resources

Where resources print apart, ids show in a forest in one way only: leftover resources are taken up
by ascending id. If none of them leads to another, this does not show either.

- `TakesUpFreely`: whether the leftover members of a context can be taken up in any order.
- `Closes.agree`: frames of a graph and of a renamed one are closed as the same trees.
-/

namespace Thesaurus

open Traversal

variable {σ : ResourceId ≃ ResourceId} {g g' : ResourceGraph} {path : List Resource} {f : Frame}
  {u u' v w w' : IdSet} {t tree tree' : Tree Entry} {e : Edge} {r : Resource} {id : ResourceId}

namespace Renames

/-! ## Frames without unvisited edges -/

theorem referenceAt (h : Renames σ g g') :
    referenceAt g' (path.map (·.renamed σ)) (e.renamed σ) = referenceAt g path e := by
  have htop : isTopOn (path.map (·.renamed σ)) (e.renamed σ).target = isTopOn path e.target :=
    isTopOn_renamed
  have hview : g'.viewOf (e.renamed σ).target = g.viewOf e.target := h.viewOf
  rw [Traversal.referenceAt, Traversal.referenceAt, htop, hview]
  rfl

theorem stub (h : Renames σ g g') :
    stub g' (path.map (·.renamed σ)) (f.renamed σ) = stub g path f := by
  have heach : ∀ e, Traversal.referenceAt g' ((f.resource :: path).map (·.renamed σ))
      (e.renamed σ) = Traversal.referenceAt g (f.resource :: path) e := fun _ => h.referenceAt
  have hreferences : (f.renamed σ).pending.map
      (Traversal.referenceAt g' ((f.renamed σ).resource :: path.map (·.renamed σ))) =
        f.pending.map (Traversal.referenceAt g (f.resource :: path)) := by
    show (f.pending.map (·.renamed σ)).map _ = _
    rw [List.map_map]
    exact List.map_congr_left fun e _ => heach e
  rw [Traversal.stub, Traversal.stub, hreferences]
  rfl

theorem inertTree (h : Renames σ g g') (hg : Sound g) (horders : g.OrdersExact)
    (hapart : g.PrintsApart) (hlt : e.target < g.size) :
    inertTree g' (path.map (·.renamed σ)) (e.renamed σ) = inertTree g path e := by
  obtain ⟨r, hr, htarget⟩ := ResourceGraph.exists_held hg.indexed hlt
  have hfound : g.resources[e.target]?.getD default = r := by
    rw [← htarget, hr]
    rfl
  have hfound' : g'.resources[(e.renamed σ).target]?.getD default = r.renamed σ := by
    show (g'.resources[σ e.target]?).getD default = _
    rw [h.get, ← htarget, hr]
    rfl
  rw [Traversal.inertTree, Traversal.inertTree, hfound, hfound', h.openedFrame hg horders hapart hr,
    h.stub]

theorem isInert (h : Renames σ g g') (hinert : IsInert g path u r) :
    IsInert g' (path.map (·.renamed σ)) (u.renamed σ) (r.renamed σ) where
  visited := by
    intro e he
    obtain ⟨before, hmem, rfl⟩ := List.mem_map.1 (h.edgesBelow_perm.mem_iff.1 he)
    exact fun hvisited => hinert.visited before hmem (IdSet.mem_renamed.1 hvisited)
  complete := by
    intro c hc id hid
    rw [h.contextOf?] at hc
    obtain ⟨before, hcontext, rfl⟩ := Option.map_eq_some_iff.1 hc
    obtain ⟨old, rfl⟩ := σ.surjective id
    rw [IdSet.mem_renamed]
    exact hinert.complete before hcontext old (IdSet.mem_renamed.1 hid)

/-! ## Leftover members -/

theorem leftovers_perm (f : Frame) (u : IdSet) :
    ((f.renamed σ).leftovers (u.renamed σ)).Perm ((f.leftovers u).map σ) := by
  unfold Frame.leftovers Frame.renamed
  cases f.opens with
  | none => exact List.Perm.refl _
  | some c => exact filter_renamed_perm fun id _ => decide_eq_decide.2 IdSet.mem_renamed

theorem edgeTo_renamed : (f.renamed σ).edgeTo (σ id) = (f.edgeTo id).renamed σ := by
  unfold Frame.edgeTo Frame.renamed Edge.renamed
  rw [Option.map_map, Option.map_map]
  rfl

end Renames

namespace Traversal

/-- Whether the leftover members of a context can be taken up in any order: nothing unvisited is
below them, and no two children will be shown with the same IRI. -/
structure TakesUpFreely (g : ResourceGraph) (path : List Resource) (f : Frame) (u : IdSet) :
    Prop where
  held : ∀ id ∈ f.leftovers u, id < g.size
  inert : ∀ r, g.Holds r → r.id ∈ f.leftovers u → IsInert g (f.resource :: path) u r
  apart : (f.done.map (·.value.iri) ++ (f.leftovers u).map fun id => (g.viewOf id).iri).Nodup

theorem inertTree_iri (path : List Resource) (hlt : e.target < g.size) :
    (inertTree g path e).value.iri = (g.viewOf e.target).iri := by
  obtain ⟨r, hr⟩ := ResourceGraph.exists_resource hlt
  have hfound : g.resources[e.target]?.getD default = r := by rw [hr]; rfl
  have hshown : (inertTree g path e).value = (openedFrame g path e r).entry := by
    rw [inertTree, hfound]
    rfl
  rw [hshown, ResourceGraph.viewOf, hr]
  rfl

/-- Siblings that show different IRIs have different keys. -/
theorem TakesUpFreely.nodup_keys (hfree : TakesUpFreely g path f u) :
    ((f.done.reverse ++ (f.leftovers u).map fun id =>
      inertTree g (f.resource :: path) (f.edgeTo id)).map siblingKey).Nodup := by
  refine List.Nodup.of_map SiblingKey.iri ?_
  have hiris : (((f.leftovers u).map fun id => inertTree g (f.resource :: path)
      (f.edgeTo id)).map siblingKey).map SiblingKey.iri =
        (f.leftovers u).map fun id => (g.viewOf id).iri := by
    rw [List.map_map, List.map_map]
    exact List.map_congr_left fun id hmem =>
      inertTree_iri (f.resource :: path) (hfree.held id hmem : (f.edgeTo id).target < g.size)
  rw [List.map_append, List.map_append, hiris, List.map_reverse, List.map_reverse, List.map_map]
  exact ((List.reverse_perm _).append_right _).nodup_iff.2 hfree.apart

/-- Where nothing but leftover members is left to be done, it does not matter in which order they
are taken up, since siblings are sorted. -/
theorem Closes.agree_settled {P Q : List Resource → Frame → IdSet → Prop} (h : Renames σ g g')
    (hg : Sound g) (horders : g.OrdersExact) (hapart : g.PrintsApart) (hpending : f.pending = [])
    (hfree : TakesUpFreely g path f u) (hcloses : Closes g Q path f u tree w)
    (hcloses' : Closes g' P (path.map (·.renamed σ)) (f.renamed σ) (u.renamed σ) tree' w') :
    tree' = tree ∧ w' = w.renamed σ := by
  have hperm := Renames.leftovers_perm (σ := σ) f u
  obtain ⟨rfl, hleft⟩ := hcloses.settled hpending hfree.inert
  -- nothing is below the leftovers in the other graph either
  have hinert' : ∀ r', g'.Holds r' → r'.id ∈ (f.renamed σ).leftovers (u.renamed σ) →
      IsInert g' ((f.renamed σ).resource :: path.map (·.renamed σ)) (u.renamed σ) r' := by
    intro r' hholds' hmem
    obtain ⟨r, hholds, rfl⟩ := h.exists_held hg.indexed hholds'
    rw [Resource.id_renamed, hperm.mem_iff, List.mem_map_of_injective σ.injective] at hmem
    exact h.isInert (hfree.inert r hholds hmem)
  obtain ⟨rfl, hleft'⟩ := hcloses'.settled (congrArg (List.map (Edge.renamed σ)) hpending) hinert'
  constructor
  · have hshown : ∀ id ∈ f.leftovers u, inertTree g'
        ((f.renamed σ).resource :: path.map (·.renamed σ)) ((f.renamed σ).edgeTo (σ id)) =
          inertTree g (f.resource :: path) (f.edgeTo id) := by
      intro id hmem
      have hsame : inertTree g' ((f.resource :: path).map (·.renamed σ))
          ((f.edgeTo id).renamed σ) = inertTree g (f.resource :: path) (f.edgeTo id) :=
        h.inertTree hg horders hapart (hfree.held id hmem : (f.edgeTo id).target < g.size)
      rwa [← Renames.edgeTo_renamed] at hsame
    -- the children are the same up to their order, and sorting takes that away
    have hchildren : ((f.renamed σ).done.reverse ++ ((f.renamed σ).leftovers (u.renamed σ)).map
        fun id => inertTree g' ((f.renamed σ).resource :: path.map (·.renamed σ))
          ((f.renamed σ).edgeTo id)).Perm
        (f.done.reverse ++ (f.leftovers u).map fun id =>
          inertTree g (f.resource :: path) (f.edgeTo id)) := by
      refine List.Perm.append_left _ ((hperm.map _).trans (List.Perm.of_eq ?_))
      rw [List.map_map]
      exact List.map_congr_left hshown
    rw [sortSiblings_eq_of_perm hchildren hfree.nodup_keys]
    rfl
  · refine IdSet.ext fun id' => ?_
    obtain ⟨id, rfl⟩ := σ.surjective id'
    rw [hleft', IdSet.mem_renamed, IdSet.mem_renamed, hleft, hperm.mem_iff,
      List.mem_map_of_injective σ.injective]

/-- Frames of a graph and of a renamed one are closed as the same trees. -/
theorem Closes.agree {P : List Resource → Frame → IdSet → Prop} (h : Renames σ g g')
    (hg : Sound g) (horders : g.OrdersExact) (hapart : g.PrintsApart)
    (hcloses : Closes g (TakesUpFreely g) path f u tree w)
    (hcloses' : Closes g' P (path.map (·.renamed σ)) (f.renamed σ) (u.renamed σ) tree' w') :
    tree' = tree ∧ w' = w.renamed σ := by
  -- by induction on how the frame is closed: the renamed frame has the same edges up to the point
  -- where members are left over, from which on only the sorted children agree
  induction hcloses generalizing tree' w' with
  | @opened path f e later r u v w t tree hpending hfresh hholds htarget hchild hrest ihChild
    ihRest =>
    have hfirst : (f.renamed σ).pending = e.renamed σ :: later.map (Edge.renamed σ) :=
      congrArg (List.map (Edge.renamed σ)) hpending
    obtain ⟨r', t', v', hholds', htarget', hchild', hrest'⟩ :=
      hcloses'.of_fresh hfirst (IdSet.mem_renamed.2 hfresh)
    -- the child has the renamed frame, since the renamed resource is the one that the edge leads to
    have hsame : r' = r.renamed σ := by
      refine hholds'.eq (h.holds hholds) ?_
      rw [← htarget', Resource.id_renamed, ← htarget]
      rfl
    subst hsame
    have hrenamed : Closes g' P ((f.resource :: path).map (·.renamed σ))
        ((openedFrame g (f.resource :: path) e r).renamed σ) ((u.erase e.target).renamed σ)
        t' v' := by
      rw [← h.openedFrame hg horders hapart hholds, ← IdSet.erase_renamed]
      exact hchild'
    obtain ⟨rfl, rfl⟩ := ihChild hrenamed
    exact ihRest hrest'
  | @referred path f e later r u w tree hpending hvisited hholds htarget hrest ih =>
    have hfirst : (f.renamed σ).pending = e.renamed σ :: later.map (Edge.renamed σ) :=
      congrArg (List.map (Edge.renamed σ)) hpending
    obtain ⟨r', hholds', htarget', hrest'⟩ :=
      hcloses'.of_visited hfirst fun hfresh => hvisited (IdSet.mem_renamed.1 hfresh)
    refine ih ?_
    have hsame : referenceAt g' ((f.resource :: path).map (·.renamed σ)) (e.renamed σ) =
        referenceAt g (f.resource :: path) e := h.referenceAt
    have hreference : referenceTo ((f.renamed σ).resource :: path.map (·.renamed σ))
        (e.renamed σ) r' = referenceTo (f.resource :: path) e r := by
      rw [referenceTo_eq hholds' htarget', referenceTo_eq hholds htarget]
      exact hsame
    rw [hreference] at hrest'
    exact hrest'
  | @closed path f u hpending hleftover =>
    have hnone : (f.renamed σ).leftovers (u.renamed σ) = [] := by
      rw [Frame.leftover?_eq, List.head?_eq_none_iff] at hleftover
      have hperm := Renames.leftovers_perm (σ := σ) f u
      rw [hleftover] at hperm
      exact hperm.eq_nil
    exact hcloses'.of_nothing (congrArg (List.map (Edge.renamed σ)) hpending) hnone
  | @tookUp path f id u w tree hpending hleftover hallowed hrest =>
    exact (Closes.tookUp hpending hleftover hallowed hrest).agree_settled h hg horders hapart
      hpending hallowed hcloses'

end Traversal

end Thesaurus
