import Mathlib.Data.List.Permutation
import Thesaurus.Proofs.Forest.Shape
import Thesaurus.Proofs.Graph.Lists

/-!
# What sorting siblings loses

No two siblings show the same resource, whether they are the roots or the children of a node. As
sorting drops a node only if one with the same key stays, it loses something only where two
resources have different nodes that print alike.

- `exists_kept`: what is dropped has the key of what stays.
- `Starts`, `Passes`, `Sorts`: from which resources trees are grown, which stages are passed and
  which lists of siblings are sorted while the forest of a graph is built.
- `Distinct`, `AllDistinct`: the invariant, that the children of a frame show different resources.
- `Sorts.distinct`: no two siblings show the same resource.
- `siblings_kept`: what sorting loses, and when it loses nothing.
-/

namespace Thesaurus

open Rdf (Triple)

/-! ## Repeated keys -/

/-- Each key that is not the last one is still there. -/
theorem exists_key_dropRepeatsAfter {α κ : Type} [DecidableEq κ] {key : α → κ} (last : κ)
    {l : List α} {a : α} (h : a ∈ l) :
    key a = last ∨ ∃ b ∈ dropRepeatsAfter key last l, key b = key a := by
  induction l generalizing last with
  | nil => cases h
  | cons c rest ih =>
    unfold dropRepeatsAfter
    by_cases hsame : key c = last
    · rw [if_pos hsame]
      rcases List.mem_cons.1 h with rfl | h
      · exact .inl hsame
      · exact ih last h
    · rw [if_neg hsame]
      rcases List.mem_cons.1 h with rfl | h
      · exact .inr ⟨a, List.mem_cons_self, rfl⟩
      · right
        rcases ih (key c) h with heq | ⟨b, hb, heq⟩
        · exact ⟨c, List.mem_cons_self, heq.symm⟩
        · exact ⟨b, List.mem_cons_of_mem _ hb, heq⟩

theorem exists_key_dropRepeats {α κ : Type} [DecidableEq κ] {key : α → κ} {l : List α} {a : α}
    (h : a ∈ l) : ∃ b ∈ dropRepeats key l, key b = key a := by
  cases l with
  | nil => cases h
  | cons c rest =>
    rcases List.mem_cons.1 h with rfl | h
    · exact ⟨a, List.mem_cons_self, rfl⟩
    · rcases exists_key_dropRepeatsAfter (key c) h with heq | ⟨b, hb, heq⟩
      · exact ⟨c, List.mem_cons_self, heq.symm⟩
      · exact ⟨b, List.mem_cons_of_mem _ hb, heq⟩

/-- Of the siblings with one key, one stays. -/
theorem exists_kept {siblings : List (Tree Entry)} {t : Tree Entry} (h : t ∈ siblings) :
    ∃ s ∈ sortSiblings siblings, siblingKey s = siblingKey t :=
  exists_key_dropRepeats ((sortOn_perm ..).mem_iff.2 h)

namespace Traversal

/-! ## The lists that are sorted -/

/-- From which resource, and with which progress, a tree is grown when trees are grown from some
resources and then from whatever is left: from the first one that is unvisited, or from one after
it. -/
inductive Starts (g : ResourceGraph) :
    List ResourceId → Progress → ResourceId → Progress → Prop where
  | here {id : ResourceId} {rest : List ResourceId} {p : Progress} (fresh : id ∈ p.unvisited) :
      Starts g (id :: rest) p id p
  | after {id other : ResourceId} {rest : List ResourceId} {p later q : Progress}
      {tree : Tree Entry} (fresh : id ∈ p.unvisited)
      (grown : grow g { target := id } p = .ok (tree, later)) (next : Starts g rest later other q) :
      Starts g (id :: rest) p other q
  | skipped {id other : ResourceId} {rest : List ResourceId} {p q : Progress}
      (visited : id ∉ p.unvisited) (next : Starts g rest p other q) :
      Starts g (id :: rest) p other q
  | left {id : ResourceId} {rest : List ResourceId} {p : Progress}
      (first : p.unvisited.toList = id :: rest) : Starts g [] p id p
  | afterLeft {id other : ResourceId} {rest : List ResourceId} {p later q : Progress}
      {tree : Tree Entry} (first : p.unvisited.toList = id :: rest)
      (grown : grow g { target := id } p = .ok (tree, later)) (next : Starts g [] later other q) :
      Starts g [] p other q

/-- The stages that are passed while the forest of a graph is built: those to which the turns lead
after a tree was begun. -/
inductive Passes (g : ResourceGraph) : Stage → Prop where
  | turns {planned : List ResourceId} {id : ResourceId} {p : Progress} {frame : Frame} {s : Stage}
      (plannedEq : roots g = .ok planned)
      (starts : Starts g planned { unvisited := typedIds g } id p)
      (placed : place g (openContexts []) { target := id } = .ok frame)
      (reached : Relation.ReflTransGen
        (fun s next => turn g frame.entry.iri s = .ok (.next next)) ⟨[frame], p.visit id⟩ s) :
      Passes g s

/-- The lists of siblings that are sorted while the forest of a graph is built: the children of
frames that are closed, and the roots. -/
inductive Sorts (g : ResourceGraph) : List (Tree Entry) → Prop where
  | children {top : Frame} {below : List Frame} {p : Progress}
      (passed : Passes g ⟨top :: below, p⟩) (pending : top.pending = [])
      (leftover : top.leftover? p.unvisited = none) : Sorts g top.done.reverse
  | roots {planned : List ResourceId} {trees others : Forest} {p q : Progress}
      (plannedEq : roots g = .ok planned)
      (grown : growEach g planned { unvisited := typedIds g } = .ok (trees, p))
      (promoted : promote g p = .ok (others, q)) : Sorts g (trees ++ others)

/-! ## The invariant -/

/-- Whether a tree shows the resource with the given id at its root. -/
def ShowsId (g : ResourceGraph) (child : ResourceId × Tree Entry) : Prop :=
  ∃ r, g.Holds r ∧ r.id = child.1 ∧ child.2.value.view = r.view

/-- Whether no two of some trees show the same resource. -/
def ShowApart (g : ResourceGraph) (trees : List (Tree Entry)) : Prop :=
  ∃ children : List (ResourceId × Tree Entry), trees = children.map (·.2) ∧
    (∀ c ∈ children, ShowsId g c) ∧ (children.map (·.1)).Nodup

/-- Whether the children of a frame show different resources, which are visited. The resource that
is being placed and those that edges lead to are different again. -/
def Distinct (g : ResourceGraph) (unvisited : IdSet) (placing : List ResourceId) (f : Frame) :
    Prop :=
  ∃ children : List (ResourceId × Tree Entry), f.done = children.map (·.2) ∧
    (∀ c ∈ children, ShowsId g c) ∧
    (children.map (·.1) ++ placing ++ f.pending.map (·.target)).Nodup ∧
    ∀ id ∈ children.map (·.1) ++ placing, id ∉ unvisited

/-- Whether this holds of all frames, where each is placing the resource of the next. -/
def AllDistinct (g : ResourceGraph) (unvisited : IdSet) : List ResourceId → List Frame → Prop
  | _, [] => True
  | placing, f :: below =>
    Distinct g unvisited placing f ∧ AllDistinct g unvisited [f.resource.id] below

variable {g : ResourceGraph} {path : List Resource} {f : Frame} {p later q : Progress}
  {unvisited : IdSet} {placing : List ResourceId} {frames : List Frame} {s next : Stage} {e : Edge}
  {r : Resource} {siblings : List (Tree Entry)}

/-- No two edges lead to the same resource. -/
theorem edgesBelow_nodup (horders : g.OrdersExact) (hr : g.Holds r) :
    ((edgesBelow g path r).map (·.target)).Nodup := by
  have hcollection : ((memberEdges g r).map (·.target)).Nodup := by
    unfold memberEdges
    split
    · -- an accepted order lists each member once
      rw [List.map_map]
      show ((r.links.orderedMembers.getD []).zipIdx.map Prod.fst).Nodup
      rw [List.zipIdx_map_fst]
      cases horder : r.links.orderedMembers with
      | none => exact List.nodup_nil
      | some ids => exact (horders r.id ids (hr.linksOf ▸ horder)).nodup_iff.2 (IdSet.nodup _)
    · rw [List.map_filterMap]
      refine r.links.members.nodup.filterMap fun a b id ha hb => ?_
      have htarget : ∀ {a id}, (memberEdge? g (g.contextOf r) a).map (·.target) = some id →
          a = id := by
        intro a id ha
        obtain ⟨e, he, rfl⟩ := Option.map_eq_some_iff.1 ha
        unfold memberEdge? at he
        split at he
        · split at he
          · cases he
          · cases he
            rfl
        all_goals cases he; try rfl
      rw [htarget ha, htarget hb]
  unfold edgesBelow
  cases hkind : r.kind with
  | unknown => exact List.nodup_nil
  | concept =>
    rw [List.map_map]
    simpa [Function.comp_def] using ResourceGraph.narrowerIn_nodup
  | conceptScheme =>
    rw [List.map_map]
    simpa [Function.comp_def, Context.roots] using (g.contextOf r).members.nodup.filter _
  | collection => exact hcollection
  | orderedCollection => exact hcollection

theorem Distinct.fewer {other : IdSet} (h : Distinct g unvisited placing f)
    (hfewer : ∀ id ∈ other, id ∈ unvisited) : Distinct g other placing f := by
  obtain ⟨children, hdone, hshows, hnodup, hvisited⟩ := h
  exact ⟨children, hdone, hshows, hnodup, fun id hid hmem => hvisited id hid (hfewer id hmem)⟩

theorem AllDistinct.fewer {other : IdSet} (h : AllDistinct g unvisited placing frames)
    (hfewer : ∀ id ∈ other, id ∈ unvisited) : AllDistinct g other placing frames := by
  induction frames generalizing placing with
  | nil => trivial
  | cons f below ih => exact ⟨h.1.fewer hfewer, ih h.2⟩

/-- A frame that was just opened has no children, and its edges lead to different resources. -/
theorem Opened.distinct (horders : g.OrdersExact) (h : Opened g path e f) :
    Distinct g unvisited [] f := by
  refine ⟨[], h.done_eq, fun c hc => absurd hc List.not_mem_nil, ?_, fun id hid => ?_⟩
  · have hedges : ((edgesBelow g path f.resource).map (·.target)).Nodup :=
      edgesBelow_nodup horders h.seated.shown.holds
    simpa using (h.pending_perm.map (·.target)).nodup_iff.2 hedges
  · cases hid

/-- What an edge leads to is what is placed next. -/
theorem Distinct.follow {later : List Edge} (h : Distinct g unvisited [] f)
    (hpending : f.pending = e :: later) (hvisited : e.target ∉ unvisited) :
    Distinct g unvisited [e.target] (f.leaving later) := by
  obtain ⟨children, hdone, hshows, hnodup, hbefore⟩ := h
  refine ⟨children, hdone, hshows, ?_, fun id hid => ?_⟩
  · simpa [hpending, Frame.leaving] using hnodup
  · rcases List.mem_append.1 hid with hid | hid
    · exact hbefore id (List.mem_append_left _ hid)
    · rwa [List.mem_singleton.1 hid]

/-- What was being placed becomes a child. -/
theorem Distinct.add {id : ResourceId} {t : Tree Entry} (h : Distinct g unvisited [id] f)
    (ht : ShowsId g (id, t)) : Distinct g unvisited [] (f.add t) := by
  obtain ⟨children, hdone, hshows, hnodup, hvisited⟩ := h
  refine ⟨(id, t) :: children, ?_, ?_, ?_, ?_⟩
  · show t :: f.done = _
    rw [hdone, List.map_cons]
  · intro c hc
    rcases List.mem_cons.1 hc with rfl | hc
    · exact ht
    · exact hshows c hc
  · have hmoved : (children.map (·.1) ++ [id]).Perm (id :: children.map (·.1)) :=
      List.perm_append_singleton id _
    have hall := (hmoved.append_right _).nodup_iff.1 hnodup
    simpa [Frame.add] using hall
  · intro other hother
    refine hvisited other ?_
    simpa [or_comm] using hother

/-- A member that is taken up is not visited yet, so that no child shows it. -/
theorem Distinct.takeUp {id : ResourceId} (h : Distinct g unvisited [] f)
    (hpending : f.pending = []) (hfresh : id ∈ unvisited) :
    Distinct g unvisited [] (f.takeUp id) := by
  obtain ⟨children, hdone, hshows, hnodup, hvisited⟩ := h
  refine ⟨children, hdone, hshows, ?_, hvisited⟩
  have hnotChild : id ∉ children.map (·.1) := fun hmem =>
    hvisited id (List.mem_append_left _ hmem) hfresh
  rw [hpending, List.map_nil, List.append_nil, List.append_nil] at hnodup
  show (children.map Prod.fst ++ [] ++ (id :: f.pending.map Edge.target)).Nodup
  rw [hpending, List.map_nil, List.append_nil]
  exact (List.perm_append_singleton id _).nodup_iff.2 (List.nodup_cons.2 ⟨hnotChild, hnodup⟩)

/-- Every turn keeps siblings apart. -/
theorem Steps.distinct (horders : g.OrdersExact) (hs : s.Valid g)
    (hdistinct : AllDistinct g s.progress.unvisited [] s.frames)
    (hstep : Steps g s (.next next)) : AllDistinct g next.progress.unvisited [] next.frames := by
  cases hstep with
  | @opened top frame below p e later hpending hfresh hopened =>
    obtain ⟨htopDistinct, hrest⟩ := hdistinct
    have hfewer : ∀ id ∈ p.unvisited.erase e.target, id ∈ p.unvisited := fun id hid =>
      (IdSet.mem_erase.1 hid).1
    have hfollowed : Distinct g (p.unvisited.erase e.target) [e.target] (top.leaving later) :=
      (htopDistinct.fewer hfewer).follow hpending fun hmem => (IdSet.mem_erase.1 hmem).2 rfl
    rw [hopened.target_eq] at hfollowed hfewer
    show AllDistinct g (p.unvisited.erase e.target) [] (frame :: top.leaving later :: below)
    rw [hopened.target_eq]
    exact ⟨hopened.distinct horders, hfollowed, hrest.fewer hfewer⟩
  | @referred top below p e later r hpending hvisited hholds htarget =>
    obtain ⟨htopDistinct, hrest⟩ := hdistinct
    exact ⟨(htopDistinct.follow hpending hvisited).add ⟨r, hholds, htarget.symm, rfl⟩, hrest⟩
  | @tookUp top below p id hpending hleftover =>
    obtain ⟨htopDistinct, hrest⟩ := hdistinct
    exact ⟨htopDistinct.takeUp hpending (Frame.mem_of_leftover? hleftover), hrest⟩
  | @closed top parent rest p hpending hleftover =>
    obtain ⟨_, hparentDistinct, hrestDistinct⟩ := hdistinct
    obtain ⟨hseated, _⟩ := hs.seated
    have hshows : ShowsId g (top.resource.id, top.close) :=
      ⟨top.resource, hseated.shown.holds, rfl, hseated.shown.view_eq⟩
    exact ⟨hparentDistinct.add hshows, hrestDistinct⟩

/-- A frame whose children are apart is closed over children that are apart. -/
theorem Distinct.showApart (h : Distinct g unvisited placing f) : ShowApart g f.done.reverse := by
  obtain ⟨children, hdone, hshows, hnodup, _⟩ := h
  refine ⟨children.reverse, by rw [hdone, List.map_reverse],
    fun c hc => hshows c (List.mem_reverse.1 hc), ?_⟩
  rw [List.map_reverse, List.nodup_reverse]
  exact (List.nodup_append.1 (List.nodup_append.1 hnodup).1).1

/-! ## All lists that are sorted -/

/-- Wherever a tree is grown, it can be shown at the top, and growing it goes on from a valid
progress. What each tree keeps holds of it, too. -/
theorem Starts.keeps {J : Progress → Prop} {ids : List ResourceId} {id : ResourceId} (h : Sound g)
    (hstarts : Starts g ids p id q) (hp : p.Valid g) (hids : ∀ id ∈ ids, Apt g [] { target := id })
    (hleft : ∀ trees later, growEach g ids p = .ok (trees, later) →
      ∀ id ∈ later.unvisited, Apt g [] { target := id })
    (hone : ∀ id p tree later, p.Valid g → Apt g [] { target := id } → id ∈ p.unvisited → J p →
      grow g { target := id } p = .ok (tree, later) → J later) (hJ : J p) :
    q.Valid g ∧ Apt g [] { target := id } ∧ id ∈ q.unvisited ∧ J q := by
  -- by induction on how the id is reached: each tree before it keeps the invariant
  induction hstarts with
  | here hfresh => exact ⟨hp, hids _ List.mem_cons_self, hfresh, hJ⟩
  | @after id other rest p later q tree hfresh hgrown hnext ih =>
    have hapt := hids id List.mem_cons_self
    have hplanted := grow_planted h hp hapt hfresh hgrown
    refine ih hplanted.valid (fun id hid => hids id (List.mem_cons_of_mem _ hid)) ?_
      (hone id p tree later hp hapt hfresh hJ hgrown)
    intro trees last hgrownRest
    exact hleft (tree :: trees) last (by simp only [growEach, if_pos hfresh, hgrown, hgrownRest])
  | skipped hvisited hnext ih =>
    refine ih hp (fun id hid => hids id (List.mem_cons_of_mem _ hid)) ?_ hJ
    intro trees last hgrownRest
    exact hleft trees last (by rw [growEach, if_neg hvisited, hgrownRest])
  | @left id rest p hfirst =>
    have hfresh : id ∈ p.unvisited := IdSet.mem_def.2 (hfirst ▸ List.mem_cons_self)
    exact ⟨hp, hleft [] p rfl id hfresh, hfresh, hJ⟩
  | @afterLeft id other rest p later q tree hfirst hgrown hnext ih =>
    have hfresh : id ∈ p.unvisited := IdSet.mem_def.2 (hfirst ▸ List.mem_cons_self)
    have hapt := hleft [] p rfl id hfresh
    have hplanted := grow_planted h hp hapt hfresh hgrown
    refine ih hplanted.valid (fun id hid => absurd hid List.not_mem_nil) ?_
      (hone id p tree later hp hapt hfresh hJ hgrown)
    intro trees last hgrownNone id hid
    cases hgrownNone
    exact hleft [] p rfl id (hplanted.fewer id hid)

/-- What every turn keeps, and every tree hands on to the next, holds wherever a stage is passed. -/
theorem Passes.rule {I : Stage → Prop} {J : Progress → Prop} (h : Sound g)
    (hstart : J { unvisited := typedIds g })
    (hfirst : ∀ e p frame, e.target ∈ p.unvisited → Apt g [] e → J p → Opened g [] e frame →
      I ⟨[frame], p.visit e.target⟩)
    (hstep : ∀ s next, s.Valid g → I s → Steps g s (.next next) → I next)
    (hlast : ∀ s tree later, s.Valid g → I s → Steps g s (.finished tree later) → J later)
    (hpasses : Passes g s) : s.Valid g ∧ I s := by
  obtain ⟨ph⟩ := exists_phases h
  obtain @⟨planned, id, p, frame, s, hplannedEq, hstarts, hplaced, hreached⟩ := hpasses
  rw [roots_eq h] at hplannedEq
  cases hplannedEq
  have hleft : ∀ trees later, growEach g (plannedRoots g) { unvisited := typedIds g } =
      .ok (trees, later) → ∀ id ∈ later.unvisited, Apt g [] { target := id } := by
    intro trees later hgrown
    rw [ph.grown_roots] at hgrown
    cases hgrown
    exact ph.apt
  obtain ⟨hvalid, hapt, hfresh, hJ⟩ := hstarts.keeps (J := J) h (start_valid g)
    (fun _ hid => apt_of_mem_roots h.indexed hid) hleft
    (fun id p tree later hp hapt hfresh hJ hgrown =>
      grow_keeps (I := I) (Q := fun _ later => J later) h hp hapt hfresh
        (fun frame hopened => hfirst _ p frame hfresh hapt hJ hopened) hstep hlast hgrown)
    hstart
  have hnoPath : ∀ q ∈ ([] : List Resource), g.Holds q := fun q hq => absurd hq List.not_mem_nil
  obtain ⟨frame', hplaced', hopened⟩ := exists_opened h hnoPath hapt (hvalid.typed _ hfresh)
  have hcontexts : g.contextsOn [] = openContexts [] := rfl
  rw [hcontexts, hplaced] at hplaced'
  cases hplaced'
  -- by induction on the turns that lead to the stage
  induction hreached with
  | refl => exact ⟨hopened.valid hvalid, hfirst _ p frame hfresh hapt hJ hopened⟩
  | tail _ hturned ih =>
    obtain ⟨hbefore, hkept⟩ := ih
    obtain ⟨t, hturned', hsteps⟩ := turn_steps frame.entry.iri h hbefore
    rw [hturned] at hturned'
    cases hturned'
    exact ⟨hsteps.valid h hbefore, hstep _ _ hbefore hkept hsteps⟩

/-- Wherever a stage is passed, children show different resources. -/
theorem Passes.distinct (h : Sound g) (horders : g.OrdersExact) (hpasses : Passes g s) :
    s.Valid g ∧ AllDistinct g s.progress.unvisited [] s.frames :=
  hpasses.rule (I := fun s => AllDistinct g s.progress.unvisited [] s.frames) (J := fun _ => True) h
    trivial (fun _ _ _ _ _ _ hopened => ⟨hopened.distinct horders, trivial⟩)
    (fun _ _ hvalid hdistinct hsteps => hsteps.distinct horders hvalid hdistinct)
    fun _ _ _ _ _ _ => trivial

/-- The roots show different resources, since each was unvisited before its tree was grown. -/
theorem Phases.showApart (h : Sound g) (ph : Phases g) : ShowApart g ph.trees := by
  have hall : ∃ children : List (ResourceId × Tree Entry), ph.trees = children.map (·.2) ∧
      (∀ c ∈ children, ShowsId g c) ∧ (children.map (·.1)).Nodup ∧
      ∀ id ∈ children.map (·.1), id ∉ ph.atEnd.unvisited := by
    -- the invariant of all phases: what the trees show is different, and visited
    refine ph.rule h (J := fun trees p => ∃ children : List (ResourceId × Tree Entry),
      trees = children.map (·.2) ∧ (∀ c ∈ children, ShowsId g c) ∧ (children.map (·.1)).Nodup ∧
      ∀ id ∈ children.map (·.1), id ∉ p.unvisited) ?_ ?_
    · exact ⟨[], rfl, fun c hc => absurd hc List.not_mem_nil, List.nodup_nil,
        fun id hid => absurd hid List.not_mem_nil⟩
    · rintro id done p tree later hp hapt hfresh ⟨children, rfl, hshows, hnodup, hvisited⟩ hgrown
      obtain ⟨tree', later', hgrown', hplanted, hclosed, hroot⟩ := exists_grow h hp hapt hfresh
      rw [hgrown] at hgrown'
      cases hgrown'
      refine ⟨children ++ [(id, tree)], by simp, ?_, ?_, ?_⟩
      · intro c hc
        rcases List.mem_append.1 hc with hc | hc
        · exact hshows c hc
        · rw [List.mem_singleton.1 hc]
          exact hroot.shows
      · have hnotBefore : id ∉ children.map (·.1) := fun hmem => hvisited id hmem hfresh
        rw [List.map_append]
        exact (List.perm_append_singleton id _).nodup_iff.2 (List.nodup_cons.2 ⟨hnotBefore, hnodup⟩)
      · intro other hother hmem
        rw [List.map_append] at hother
        rcases List.mem_append.1 hother with hother | hother
        · exact hvisited other hother (hplanted.fewer other hmem)
        · rw [List.mem_singleton.1 hother] at hmem
          exact hclosed hmem
  obtain ⟨children, htrees, hshows, hnodup, _⟩ := hall
  exact ⟨children, htrees, hshows, hnodup⟩

/-- No two siblings show the same resource. -/
theorem Sorts.showApart (h : Sound g) (horders : g.OrdersExact) (hsorts : Sorts g siblings) :
    ShowApart g siblings := by
  cases hsorts with
  | children hpassed hpending hleftover =>
    obtain ⟨_, htopDistinct, _⟩ := hpassed.distinct h horders
    exact htopDistinct.showApart
  | @roots planned trees others p q hplannedEq hgrown hpromoted =>
    obtain ⟨ph⟩ := exists_phases h
    rw [roots_eq h] at hplannedEq
    cases hplannedEq
    rw [ph.grown_roots] at hgrown
    cases hgrown
    rw [ph.promoted] at hpromoted
    cases hpromoted
    exact ph.showApart h

/-- What is dropped has the key of another sibling that stays, and their nodes print alike. -/
theorem ShowApart.dropped (h : Indexed g) (hapart : ShowApart g siblings) {t : Tree Entry}
    (ht : t ∈ siblings) (hdropped : t ∉ sortSiblings siblings) :
    ∃ s ∈ sortSiblings siblings, siblingKey s = siblingKey t ∧
      ∃ q r, g.Holds q ∧ g.Holds r ∧ s.value.view = q.view ∧ t.value.view = r.view ∧
        q.node ≠ r.node ∧ q.node.text = r.node.text := by
  obtain ⟨s, hs, hkey⟩ := exists_kept ht
  obtain ⟨children, rfl, hshows, hnodup⟩ := hapart
  obtain ⟨a, ha, rfl⟩ := List.mem_map.1 (mem_of_mem_sortSiblings hs)
  obtain ⟨b, hb, rfl⟩ := List.mem_map.1 ht
  obtain ⟨q, hq, hqid, hqview⟩ := hshows a ha
  obtain ⟨r, hr, hrid, hrview⟩ := hshows b hb
  refine ⟨a.2, hs, hkey, q, r, hq, hr, hqview, hrview, fun hsame => ?_, ?_⟩
  · -- one node would be one resource, and then one child
    have hids : a.1 = b.1 := by
      rw [← hqid, ← hrid]
      exact h.node_inj q.id r.id q r hq hr hsame
    have hequal : a = b := List.inj_on_of_nodup_map hnodup ha hb hids
    exact hdropped (hequal ▸ hs)
  · have hiri : a.2.value.view.iri = b.2.value.view.iri := congrArg SiblingKey.iri hkey
    rw [hqview, hrview] at hiri
    exact hiri

/-- Siblings that show different resources have different IRIs, where no two nodes print alike. -/
theorem ShowApart.nodup_iris (h : Indexed g) (hapart' : ShowApart g siblings)
    (hapart : g.PrintsApart) : (siblings.map (·.value.iri)).Nodup := by
  obtain ⟨children, rfl, hshows, hnodup⟩ := hapart'
  rw [List.map_map]
  refine (List.Nodup.of_map _ hnodup).map_on fun a ha b hb hiri => ?_
  obtain ⟨q, hq, hqid, hqview⟩ := hshows a ha
  obtain ⟨r, hr, hrid, hrview⟩ := hshows b hb
  have hprinted : (g.viewOf q.id).iri = (g.viewOf r.id).iri := by
    rw [hq.viewOf, hr.viewOf, ← hqview, ← hrview]
    exact hiri
  have hsame : q.id = r.id := hapart.eq_of_iri h hq.lt_size hr.lt_size hprinted
  exact List.inj_on_of_nodup_map hnodup ha hb (by rw [← hqid, ← hrid, hsame])

/-- Sorting loses nothing where no two nodes print alike. -/
theorem ShowApart.perm (h : Indexed g) (hapart' : ShowApart g siblings) (hapart : g.PrintsApart) :
    (sortSiblings siblings).Perm siblings := by
  refine sortSiblings_perm (List.Nodup.of_map SiblingKey.iri ?_)
  rw [List.map_map]
  exact hapart'.nodup_iris h hapart

end Traversal

open Traversal

/-- Wherever siblings are sorted while a forest is built, what is dropped has the key of a sibling
that stays and shows another resource, whose node prints alike. Where all nodes print apart, nothing
is dropped, and the forest owns as many nodes as there are resources of known kind. -/
theorem siblings_kept (c : Configuration) (triples : List Triple) :
    ∃ g f built, (ResourceGraph.new c).ingestAll triples = .ok g ∧ g.finish = .ok f ∧
      build f = .ok built ∧
      (∀ siblings, Sorts f siblings → ∀ t ∈ siblings, t ∉ sortSiblings siblings →
        ∃ s ∈ sortSiblings siblings, siblingKey s = siblingKey t ∧
          ∃ q r, f.Holds q ∧ f.Holds r ∧ s.value.view = q.view ∧ t.value.view = r.view ∧
            q.node ≠ r.node ∧ q.node.text = r.node.text) ∧
      (f.PrintsApart →
        (∀ siblings, Sorts f siblings → (sortSiblings siblings).Perm siblings) ∧
        (Forest.ownedViews built.forest).length = (typedIds f).size) := by
  obtain ⟨g, htaken, hsound, _, hopen, _⟩ :=
    ResourceGraph.exists_ingestAll triples (Sound.new c) rfl
  obtain ⟨f, hfinished, hsoundFinished, _⟩ := ResourceGraph.exists_finish hsound hopen
  have horders : f.OrdersExact :=
    (((Reachable.new c).ingestAll htaken).finish hfinished).ordersExact
  obtain ⟨built, hgrown, _, hcovered⟩ := exists_build hsoundFinished
  refine ⟨g, f, built, htaken, hfinished, hgrown, fun siblings hsorts t ht hdropped => ?_,
    fun hapart => ⟨fun siblings hsorts => ?_, ?_⟩⟩
  · exact (hsorts.showApart hsoundFinished horders).dropped hsoundFinished.indexed ht hdropped
  · exact (hsorts.showApart hsoundFinished horders).perm hsoundFinished.indexed hapart
  · rw [(hcovered hapart).length_eq, ← viewsOf_typedIds, List.length_map]
    rfl

theorem siblings_kept_smallScheme : ∃ f built,
    ((ResourceGraph.new { conceptSchemes := true }).ingestAll smallStatements).bind (·.finish) =
      .ok f ∧ f.PrintsApart ∧ build f = .ok built ∧
    (∀ siblings, Sorts f siblings → (sortSiblings siblings).Perm siblings) ∧
    (Forest.ownedViews built.forest).length = (typedIds f).size := by
  obtain ⟨g, f, built, htaken, hfinished, hgrown, _, hkept⟩ :=
    siblings_kept { conceptSchemes := true } smallStatements
  have hwhole : ((ResourceGraph.new { conceptSchemes := true }).ingestAll smallStatements).bind
      (·.finish) = .ok f := by
    rw [htaken]
    exact hfinished
  have hnodes : (((ResourceGraph.new { conceptSchemes := true }).ingestAll smallStatements).bind
      (·.finish)).map (fun f => f.resources.toList.map (·.node)) =
        .ok [.iri "urn:s", .iri "urn:a", .iri "urn:b"] := by decide +kernel
  have hapart : f.PrintsApart := by
    rw [hwhole] at hnodes
    have hlisted : f.resources.toList.map (·.node) = [.iri "urn:s", .iri "urn:a", .iri "urn:b"] :=
      Except.ok.inj hnodes
    show PrintApart (f.resources.toList.map (·.node))
    rw [hlisted]
    decide
  exact ⟨f, built, hwhole, hapart, hgrown, hkept hapart⟩

/-! ## Nodes that print alike -/

/-- Statements about a blank node and about an IRI that prints like it. -/
def alikeStatements : List Triple := [
  ⟨.blank "x", "http://www.w3.org/1999/02/22-rdf-syntax-ns#type",
    .node (.iri "http://www.w3.org/2004/02/skos/core#Concept")⟩,
  ⟨.iri "_:x", "http://www.w3.org/2004/02/skos/core#narrower", .node (.iri "urn:b")⟩]

/-- The finished graph of these statements. -/
def alikeGraph : ResourceGraph where
  configuration := {}
  resources := #[
    { id := 0, node := .blank "x", kind := .concept },
    { id := 1, node := .iri "_:x", kind := .concept, links := { narrower := .ofList [2] } },
    { id := 2, node := .iri "urn:b", kind := .concept, links := { broader := .ofList [1] } }]
  index := ⟨[(.blank "x", 0), (.iri "_:x", 1), (.iri "urn:b", 2)]⟩
  counters := { triples := 2 }
  frozen := true

/-- A concept that is shown without any text. -/
def plainTree (iri : String) (children : Forest) : Tree Entry :=
  .node { view := { iri := iri, kind := .concept } } children

/-- One of the two roots is dropped with its child, though no tree like it stays. -/
theorem root_lost :
    ((ResourceGraph.new {}).ingestAll alikeStatements).bind (·.finish) = .ok alikeGraph ∧
      (∃ siblings, Sorts alikeGraph siblings ∧ ∃ t ∈ siblings, t ∉ sortSiblings siblings) ∧
      ∃ built, build alikeGraph = .ok built ∧
        (Forest.ownedViews built.forest).length = 1 ∧ (typedIds alikeGraph).size = 3 := by
  have hplanned : roots alikeGraph = .ok [0, 1] := by cbv
  have hgrown : growEach alikeGraph [0, 1] { unvisited := typedIds alikeGraph } =
      .ok ([plainTree "_:x" [], plainTree "_:x" [plainTree "urn:b" []]], { unvisited := ∅ }) := by
    cbv
  have hpromoted : promote alikeGraph { unvisited := ∅ } = .ok ([], { unvisited := ∅ }) := by cbv
  refine ⟨by decide +kernel, ⟨_, .roots hplanned hgrown hpromoted, ?_⟩, ?_⟩
  · refine ⟨plainTree "_:x" [plainTree "urn:b" []], by decide, ?_⟩
    have hsorted : sortSiblings [plainTree "_:x" [], plainTree "_:x" [plainTree "urn:b" []]] =
        [plainTree "_:x" []] := by cbv
    show plainTree "_:x" [plainTree "urn:b" []] ∉
      sortSiblings [plainTree "_:x" [], plainTree "_:x" [plainTree "urn:b" []]]
    rw [hsorted]
    decide
  · have hsorted : build alikeGraph = .ok {
        forest := [plainTree "_:x" []]
        cycle := false
        onlyTreeEdges := true
        issues := [] } := by cbv
    exact ⟨_, hsorted, by cbv, by decide +kernel⟩

end Thesaurus
