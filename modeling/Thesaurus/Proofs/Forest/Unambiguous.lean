import Thesaurus.Proofs.Forest.Unordered

/-!
# Forests that do not depend on ids

Resources that are left over are taken up by ascending id. Where none of them leads to another, each
becomes a tree of its own, and sorting the trees hides the order.

- `ResourceGraph.Unambiguous`: no resource that is left over leads to another one.
- `Unambiguous.takesUpFreely`: leftover members can be taken up in any order.
- `promote_inert`: what is left after the roots has trees of its own.
- `grow_agree`, `growEach_agree`, `promote_agree`: a graph and a renamed one have the same trees of
  their roots, and of what is left.
- `build_agree`: a graph and a renamed one have the same forest.
-/

namespace Thesaurus

open Traversal Relation

/-- Whether it does not matter which of the resources that are left over is taken up first. -/
structure ResourceGraph.Unambiguous (g : ResourceGraph) : Prop where
  members : ∀ top below p c, Passes g ⟨top :: below, p⟩ → top.pending = [] → top.opens = some c →
    ∀ a ∈ c.members, a ∈ p.unvisited →
      ∀ b ∈ c.restrict (g.linksOf a).narrower, b ∉ p.unvisited
  others : ∀ planned trees p, roots g = .ok planned →
    growEach g planned { unvisited := typedIds g } = .ok (trees, p) → ∀ a ∈ p.unvisited,
      (∀ b ∈ (g.linksOf a).narrower, b ∉ p.unvisited) ∧
        ∀ b ∈ (g.linksOf a).members, b ∉ p.unvisited

namespace Traversal

variable {σ : ResourceId ≃ ResourceId} {g g' : ResourceGraph} {path : List Resource} {f top : Frame}
  {below : List Frame} {u : IdSet} {p p' later later' : Progress} {tree tree' : Tree Entry}
  {trees trees' : Forest} {e : Edge} {k r : Resource} {id : ResourceId} {ids : List ResourceId}

/-! ## Leftover members -/

theorem Frame.mem_leftovers :
    id ∈ f.leftovers u ↔ ∃ c, f.opens = some c ∧ id ∈ c.members ∧ id ∈ u := by
  unfold Frame.leftovers
  cases f.opens with
  | none => simp
  | some c => simp [IdSet.mem_def]

/-- Nothing unvisited is below a member of a context that leads to no other. -/
theorem inert_of_member (h : Sound g) (hgathers : k.kind.gathers = true) (hr : g.Holds r)
    (hmember : r.id ∈ (g.contextOf k).members)
    (hbelow : ∀ b ∈ (g.contextOf k).restrict (g.linksOf r.id).narrower, b ∉ u) :
    IsInert g (k :: path) u r := by
  have hconcept : r.kind = .concept := hr.kindOf ▸ (ResourceGraph.mem_contextOf.1 hmember).2
  constructor
  · intro e he
    unfold edgesBelow at he
    rw [hconcept] at he
    obtain ⟨id, hid, rfl⟩ := List.mem_map.1 he
    refine hbelow id ?_
    obtain ⟨hnarrower, hkind⟩ := ResourceGraph.mem_narrowerIn h hr hid
    rw [← hr.linksOf] at hnarrower
    -- the edges of a member are those within the context on top of the path
    have hnearest : nearestContext? (k :: path) = some k := by
      rw [nearestContext?_cons, if_pos hgathers]
    unfold ResourceGraph.narrowerIn at hid
    rw [hnearest] at hid
    by_cases hordered : k.hasOrder = true
    · simp [hordered] at hid
    · simp only [hordered] at hid
      have hdeclared : id ∈ k.declaredMembers := by simpa using (List.mem_filter.1 hid).2
      show id ∈ if k.hasOrder = true then ∅ else _
      rw [if_neg hordered]
      exact IdSet.mem_inter.2 ⟨hnarrower, ResourceGraph.mem_contextOf.2 ⟨hdeclared, hkind⟩⟩
  · intro c hc
    rw [ResourceGraph.contextOf?, hconcept] at hc
    cases hc

/-- The leftover members of a context show other IRIs than its children, which are visited. -/
theorem Distinct.apart (h : Sound g) (hapart : g.PrintsApart) (hdistinct : Distinct g u [] f)
    (htyped : ∀ id ∈ u, (g.kindOf id).isKnown = true) :
    (f.done.map (·.value.iri) ++ (f.leftovers u).map fun id => (g.viewOf id).iri).Nodup := by
  obtain ⟨children, hdone, hshows, hnodup, hvisited⟩ := hdistinct
  have hchildIds : (children.map (·.1)).Nodup := by
    simpa using (List.nodup_append.1 hnodup).1
  have hleftNodup : (f.leftovers u).Nodup := by
    unfold Frame.leftovers
    cases f.opens with
    | none => exact List.nodup_nil
    | some c => exact c.members.nodup.filter _
  -- children are visited and leftovers are not, so that no id is among both
  have hids : (children.map (·.1) ++ f.leftovers u).Nodup := by
    refine List.nodup_append.2 ⟨hchildIds, hleftNodup, ?_⟩
    rintro id hchild _ hleft rfl
    obtain ⟨_, _, _, hunvisited⟩ := Frame.mem_leftovers.1 hleft
    exact hvisited id (List.mem_append_left _ hchild) hunvisited
  have hinside : ∀ id ∈ children.map (·.1) ++ f.leftovers u, id < g.size := by
    intro id hid
    rcases List.mem_append.1 hid with hchild | hleft
    · obtain ⟨c, hc, rfl⟩ := List.mem_map.1 hchild
      obtain ⟨r, hr, hsame, _⟩ := hshows c hc
      exact hsame ▸ hr.lt_size
    · obtain ⟨_, _, _, hunvisited⟩ := Frame.mem_leftovers.1 hleft
      exact ResourceGraph.lt_size_of_isKnown (htyped id hunvisited)
  have hiris := hapart.nodup_iris h.indexed hids hinside
  rw [List.map_map] at hiris
  -- the IRI of a child is that of the resource that it shows
  have hchildIris : f.done.map (·.value.iri) =
      (children.map (·.1)).map fun id => (g.viewOf id).iri := by
    rw [hdone, List.map_map, List.map_map]
    refine List.map_congr_left fun c hc => ?_
    obtain ⟨r, hr, hsame, hview⟩ := hshows c hc
    show c.2.value.view.iri = (g.viewOf c.1).iri
    rw [hview, ← hsame, hr.viewOf]
  rw [hchildIris, ← List.map_append]
  exact hiris

/-- Wherever members are left over, they can be taken up in any order. -/
theorem takesUpFreely (h : Sound g) (horders : g.OrdersExact) (hapart : g.PrintsApart)
    (hfree : g.Unambiguous) (hpasses : Passes g ⟨top :: below, p⟩) (hpending : top.pending = []) :
    TakesUpFreely g (pathOf below) top p.unvisited := by
  obtain ⟨hvalid, hdistinct, _⟩ := hpasses.distinct h horders
  obtain ⟨hseated, _⟩ := hvalid.seated
  refine ⟨?_, ?_, hdistinct.apart h hapart hvalid.typed⟩
  · intro id hleft
    obtain ⟨_, _, _, hunvisited⟩ := Frame.mem_leftovers.1 hleft
    exact ResourceGraph.lt_size_of_isKnown (hvalid.typed id hunvisited)
  · intro r hr hleft
    obtain ⟨c, hopens, hmember, hunvisited⟩ := Frame.mem_leftovers.1 hleft
    have hfree' := hfree.members top below p c hpasses hpending hopens r.id hmember hunvisited
    rw [hseated.opens_eq, ResourceGraph.contextOf?] at hopens
    split at hopens
    · next hgathers =>
      cases hopens
      exact inert_of_member h hgathers hr hmember hfree'
    · cases hopens

/-! ## Trees of the roots -/

/-- Whether `P` holds wherever all edges below a resource were followed while a tree is grown. -/
def HoldsWithin (g : ResourceGraph) (P : List Resource → Frame → IdSet → Prop) (e : Edge)
    (p : Progress) : Prop :=
  ∀ frame top below q, place g (openContexts []) e = .ok frame →
    ReflTransGen (fun s next => turn g frame.entry.iri s = .ok (.next next))
      ⟨[frame], p.visit e.target⟩ ⟨top :: below, q⟩ → top.pending = [] →
    P (pathOf below) top q.unvisited

/-- Growing a tree closes the frame of the resource that it is grown from. -/
theorem closes_of_grow {P : List Resource → Frame → IdSet → Prop} (h : Sound g) (hp : p.Valid g)
    (he : Apt g [] e) (hfresh : e.target ∈ p.unvisited) (hr : g.Holds r) (htarget : e.target = r.id)
    (hwithin : HoldsWithin g P e p) (hgrown : grow g e p = .ok (tree, later)) :
    Closes g P [] (openedFrame g [] e r) (p.unvisited.erase e.target) tree later.unvisited := by
  have hnoPath : ∀ q ∈ ([] : List Resource), g.Holds q := fun q hq => absurd hq List.not_mem_nil
  have hknown : r.kind.isKnown = true := by
    rw [← hr.kindOf, ← htarget]
    exact hp.typed e.target hfresh
  have hplaced := place_eq h hnoPath hr hknown he htarget
  obtain ⟨frame, hplaced', hopened⟩ := exists_opened h hnoPath he (hp.typed e.target hfresh)
  have hcontexts : g.contextsOn [] = openContexts [] := rfl
  rw [hplaced] at hplaced'
  cases hplaced'
  rw [hcontexts] at hplaced
  rw [grow, hplaced] at hgrown
  obtain ⟨t, v, hcloses, rfl, rfl⟩ := run_closes h (hopened.valid hp)
    (fun top below q => hwithin _ top below q hplaced) hgrown rfl
  exact hcloses

/-! ## Trees of what is left -/

/-- Nothing unvisited is below a resource that is left and leads to no other. -/
theorem inert_of_left (h : Sound g) (hr : g.Holds r) (hkind : r.kind ≠ .conceptScheme)
    (hnarrower : ∀ b ∈ (g.linksOf r.id).narrower, b ∉ u)
    (hmembers : ∀ b ∈ (g.linksOf r.id).members, b ∉ u) : IsInert g [] u r := by
  rw [hr.linksOf] at hnarrower hmembers
  constructor
  · intro e he
    unfold edgesBelow at he
    cases hkind' : r.kind with
    | unknown =>
      rw [hkind'] at he
      cases he
    | concept =>
      rw [hkind'] at he
      obtain ⟨id, hid, rfl⟩ := List.mem_map.1 he
      exact hnarrower id (ResourceGraph.mem_narrowerIn h hr hid).1
    | conceptScheme => exact absurd hkind' hkind
    | collection =>
      rw [hkind'] at he
      exact hmembers _ (target_mem_of_memberEdges h hr he)
    | orderedCollection =>
      rw [hkind'] at he
      exact hmembers _ (target_mem_of_memberEdges h hr he)
  · intro c hc id hid
    unfold ResourceGraph.contextOf? at hc
    split at hc
    · next hgathers =>
      cases hc
      obtain ⟨hdeclared, _⟩ := ResourceGraph.mem_contextOf.1 hid
      rw [Resource.declaredMembers, if_neg hkind] at hdeclared
      exact hmembers id hdeclared
    · cases hc

/-- Where nothing that is left leads to anything else, each has a tree of its own. -/
theorem promote_inert (h : Sound g) (hp : p.Valid g)
    (hapt : ∀ id ∈ p.unvisited, Apt g [] { target := id })
    (hinert : ∀ r, g.Holds r → r.id ∈ p.unvisited → IsInert g [] p.unvisited r)
    (hpromoted : promote g p = .ok (trees, later)) :
    trees = p.unvisited.toList.map fun id => inertTree g [] { target := id } := by
  -- by induction on the rounds: a tree that owns one resource leaves all others as they were
  fun_induction promote g p generalizing trees with
  | case1 p hnone =>
    cases hpromoted
    rw [hnone]
    rfl
  | case2 p id rest hfirst d hfailed => cases hpromoted
  | case3 p id rest hfirst tree later hgrown d hfailed ih => cases hpromoted
  | case4 p id rest hfirst tree later hgrown trees' last hrounds ih =>
    cases hpromoted
    have hfresh : id ∈ p.unvisited := IdSet.mem_def.2 (hfirst ▸ List.mem_cons_self)
    obtain ⟨r, hr, rfl⟩ := ResourceGraph.exists_held h.indexed (hapt id hfresh).target_lt
    have hplanted := grow_planted h hp (hapt r.id hfresh) hfresh hgrown
    have hcloses := closes_of_grow (P := fun _ _ _ => True) h hp (hapt r.id hfresh) hfresh hr rfl
      (fun _ _ _ _ _ _ _ => trivial) hgrown
    have hfewer : ∀ id ∈ p.unvisited.erase r.id, id ∈ p.unvisited := fun id hid =>
      (IdSet.mem_erase.1 hid).1
    obtain ⟨rfl, hleft⟩ := hcloses.inert hr rfl ((hinert r hr hfresh).fewer hfewer)
    have hremaining : later.unvisited.toList = rest := by
      rw [hleft, IdSet.toList_erase, hfirst, List.erase_cons_head]
    rw [ih hplanted.valid (fun id hid => hapt id (hplanted.fewer id hid))
      (fun r hr hmem => (hinert r hr (hplanted.fewer r.id hmem)).fewer hplanted.fewer) hrounds,
      hremaining, hfirst, List.map_cons]

/-- Where it does not matter what is taken up first, nothing unvisited is below what is left. -/
theorem Phases.inert (h : Sound g) (ph : Phases g) (hfree : g.Unambiguous) (hr : g.Holds r)
    (hleft : r.id ∈ ph.afterCollections.unvisited) :
    IsInert g [] ph.afterCollections.unvisited r := by
  obtain ⟨hnarrower, hmembers⟩ := hfree.others _ _ _ (roots_eq h) ph.grown_roots r.id hleft
  refine inert_of_left h hr (fun hscheme => ?_) hnarrower hmembers
  have hconsidered := h.considered r.id
  rw [hr.kindOf, hscheme] at hconsidered
  exact ph.scheme_visited h hr hscheme hconsidered (ph.collections.fewer r.id hleft)

/-! ## A graph and a renamed one -/

theorem typedIds_renamed (h : Renames σ g g') : typedIds g' = (typedIds g).renamed σ := by
  refine IdSet.ext fun id' => ?_
  obtain ⟨id, rfl⟩ := σ.surjective id'
  rw [IdSet.mem_renamed, typedIds, typedIds, IdSet.mem_filter, IdSet.mem_filter, IdSet.mem_below,
    IdSet.mem_below, h.lt_size, h.kindOf]

section Agreement

variable (h : Renames σ g g') (hg : Sound g) (hg' : Sound g') (horders : g.OrdersExact)
  (hapart : g.PrintsApart)

include h hg hg' horders hapart

/-- A graph and a renamed one have the same trees. -/
theorem grow_agree (hp : p.Valid g) (hp' : p'.Valid g')
    (hunvisited : p'.unvisited = p.unvisited.renamed σ) (hapt : Apt g [] { target := id })
    (hapt' : Apt g' [] { target := σ id }) (hfresh : id ∈ p.unvisited)
    (hfree : HoldsWithin g (TakesUpFreely g) { target := id } p)
    (hgrown : grow g { target := id } p = .ok (tree, later))
    (hgrown' : grow g' { target := σ id } p' = .ok (tree', later')) :
    tree' = tree ∧ later'.unvisited = later.unvisited.renamed σ := by
  obtain ⟨r, hr, rfl⟩ := ResourceGraph.exists_held hg.indexed hapt.target_lt
  have hfresh' : σ r.id ∈ p'.unvisited := hunvisited ▸ IdSet.mem_renamed.2 hfresh
  have hcloses := closes_of_grow hg hp hapt hfresh hr rfl hfree hgrown
  have hcloses' := closes_of_grow (P := fun _ _ _ => True) hg' hp' hapt' hfresh' (h.holds hr) rfl
    (fun _ _ _ _ _ _ _ => trivial) hgrown'
  have hopened : openedFrame g' (([] : List Resource).map (·.renamed σ))
      (Edge.renamed σ { target := r.id }) (r.renamed σ) =
        (openedFrame g [] { target := r.id } r).renamed σ := h.openedFrame hg horders hapart hr
  refine hcloses.agree (P := fun _ _ _ => True) h hg horders hapart ?_
  rw [← hopened, ← IdSet.erase_renamed, ← hunvisited]
  exact hcloses'

/-- A graph and a renamed one have the same trees of several resources. -/
theorem growEach_agree (hp : p.Valid g) (hp' : p'.Valid g')
    (hunvisited : p'.unvisited = p.unvisited.renamed σ)
    (hapt : ∀ id ∈ ids, Apt g [] { target := id })
    (hapt' : ∀ id ∈ ids, Apt g' [] { target := σ id })
    (hfree : ∀ id q, Starts g ids p id q → HoldsWithin g (TakesUpFreely g) { target := id } q)
    (hgrown : growEach g ids p = .ok (trees, later))
    (hgrown' : growEach g' (ids.map σ) p' = .ok (trees', later')) :
    trees' = trees ∧ later'.unvisited = later.unvisited.renamed σ := by
  -- by induction on the resources: what is unvisited in one graph stays what is in the other
  induction ids generalizing p p' trees trees' with
  | nil =>
    cases hgrown
    cases hgrown'
    exact ⟨rfl, hunvisited⟩
  | cons id rest ih =>
    have hrestApt : ∀ id ∈ rest, Apt g [] { target := id } := fun id hid =>
      hapt id (List.mem_cons_of_mem _ hid)
    have hrestApt' : ∀ id ∈ rest, Apt g' [] { target := σ id } := fun id hid =>
      hapt' id (List.mem_cons_of_mem _ hid)
    have hfirstApt := hapt id List.mem_cons_self
    have hfirstApt' := hapt' id List.mem_cons_self
    rw [growEach] at hgrown
    rw [List.map_cons, growEach] at hgrown'
    by_cases hfresh : id ∈ p.unvisited
    · have hfresh' : σ id ∈ p'.unvisited := hunvisited ▸ IdSet.mem_renamed.2 hfresh
      obtain ⟨tree, q, hfirst, hplanted, _⟩ := exists_grow hg hp hfirstApt hfresh
      obtain ⟨tree', q', hfirst', hplanted', _⟩ := exists_grow hg' hp' hfirstApt' hfresh'
      obtain ⟨rfl, hleft⟩ := grow_agree h hg hg' horders hapart hp hp' hunvisited hfirstApt
        hfirstApt' hfresh (hfree id p (.here hfresh)) hfirst hfirst'
      obtain ⟨more, last, hothers⟩ := exists_growEach hg hplanted.valid hrestApt
      obtain ⟨more', last', hothers'⟩ : ∃ trees later, Grown g' (rest.map σ) q' trees later :=
        exists_growEach hg' hplanted'.valid (List.forall_mem_map.2 hrestApt')
      rw [if_pos hfresh, hfirst] at hgrown
      rw [if_pos hfresh', hfirst'] at hgrown'
      simp only [hothers.grown] at hgrown
      simp only [hothers'.grown] at hgrown'
      cases hgrown
      cases hgrown'
      obtain ⟨rfl, hsame⟩ := ih hplanted.valid hplanted'.valid hleft hrestApt hrestApt'
        (fun other q hstarts => hfree other q (.after hfresh hfirst hstarts))
        hothers.grown hothers'.grown
      exact ⟨rfl, hsame⟩
    · have hfresh' : σ id ∉ p'.unvisited := hunvisited ▸ fun hmem =>
        hfresh (IdSet.mem_renamed.1 hmem)
      rw [if_neg hfresh] at hgrown
      rw [if_neg hfresh'] at hgrown'
      exact ih hp hp' hunvisited hrestApt hrestApt'
        (fun other q hstarts => hfree other q (.skipped hfresh hstarts)) hgrown hgrown'

/-- A graph and a renamed one have the same trees of what is left, though in another order. -/
theorem promote_agree (hp : p.Valid g) (hp' : p'.Valid g')
    (hunvisited : p'.unvisited = p.unvisited.renamed σ)
    (hapt : ∀ id ∈ p.unvisited, Apt g [] { target := id })
    (hapt' : ∀ id ∈ p'.unvisited, Apt g' [] { target := id })
    (hinert : ∀ r, g.Holds r → r.id ∈ p.unvisited → IsInert g [] p.unvisited r)
    (hpromoted : promote g p = .ok (trees, later))
    (hpromoted' : promote g' p' = .ok (trees', later')) : trees'.Perm trees := by
  have hinert' : ∀ r, g'.Holds r → r.id ∈ p'.unvisited → IsInert g' [] p'.unvisited r := by
    intro r' hr' hmem
    obtain ⟨r, hr, rfl⟩ := h.exists_held hg.indexed hr'
    rw [hunvisited] at hmem ⊢
    exact h.isInert (hinert r hr (IdSet.mem_renamed.1 hmem))
  have heach : ∀ id ∈ p.unvisited,
      inertTree g' (([] : List Resource).map (·.renamed σ)) (Edge.renamed σ { target := id }) =
        inertTree g [] { target := id } := fun id hid =>
    h.inertTree hg horders hapart (hapt id hid).target_lt
  rw [promote_inert hg hp hapt hinert hpromoted, promote_inert hg' hp' hapt' hinert' hpromoted',
    hunvisited]
  refine (IdSet.toList_renamed.map _).trans (List.Perm.of_eq ?_)
  rw [List.map_map]
  exact List.map_congr_left heach

/-- A graph and a renamed one have the same forest, as long as it does not matter which of the
resources that are left over is taken up first. -/
theorem build_agree {built built' : Built} (hfree : g.Unambiguous)
    (hgrown : build g = .ok built) (hgrown' : build g' = .ok built') :
    built'.forest = built.forest := by
  obtain ⟨ph⟩ := exists_phases hg
  obtain ⟨ph'⟩ := exists_phases hg'
  have hplanned : plannedRoots g' = (plannedRoots g).map σ :=
    h.plannedRoots hg.indexed hg'.indexed hapart
  have hapt' : ∀ id ∈ plannedRoots g, Apt g' [] { target := σ id } := fun id hid =>
    apt_of_mem_roots hg'.indexed (hplanned ▸ List.mem_map_of_mem hid)
  have hgrownRoots' := ph'.grown_roots
  rw [hplanned] at hgrownRoots'
  obtain ⟨hsameRoots, hleft⟩ := growEach_agree h hg hg' horders hapart (start_valid g)
    (start_valid g') (typedIds_renamed h) (fun _ hid => apt_of_mem_roots hg.indexed hid) hapt'
    (fun id q hstarts frame top below later hplaced hreached hpending =>
      takesUpFreely hg horders hapart hfree (.turns (roots_eq hg) hstarts hplaced hreached)
        hpending)
    ph.grown_roots hgrownRoots'
  have hperm := promote_agree h hg hg' horders hapart ph.planted_roots.valid
    ph'.planted_roots.valid hleft ph.apt ph'.apt (fun _ hr => ph.inert hg hfree hr) ph.promoted
    ph'.promoted
  -- roots show different IRIs, so sorting leaves no trace of the order in which they were grown
  have hkeys : (ph.trees.map siblingKey).Nodup := by
    refine List.Nodup.of_map SiblingKey.iri ?_
    rw [List.map_map]
    exact ph.nodup_rootIris hg hapart
  rw [ph.build_eq hg] at hgrown
  rw [ph'.build_eq hg'] at hgrown'
  cases hgrown
  cases hgrown'
  refine sortSiblings_eq_of_perm ?_ hkeys
  rw [Phases.trees, Phases.trees, hsameRoots]
  exact hperm.append_left _

end Agreement

end Traversal

end Thesaurus
