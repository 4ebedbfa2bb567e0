import Thesaurus.Proofs.Forest.Nodes
import Thesaurus.Proofs.Forest.Turn

/-!
# What a traversal places

While resources are being placed, every node that is done shows its resource where its path allows
it, every concept has exactly the children that its place demands, and the resources that are owned
or unvisited stay the same in total.

- `PrintApart`: whether nodes can be told apart by their text.
- `Placed`: what holds of a tree that is done.
- `Faithful`, `Stage.Faithful`: what holds of a frame and of a stage.
- `Steps.faithful`: every turn keeps it.
- `close_placed`, `close_covered`: what closing a frame makes of it.
-/

namespace Thesaurus

open Rdf (Node)

/-- Whether no two different nodes have the same text, as an IRI that starts with `_:` and a blank
node may have. -/
def PrintApart (nodes : List Node) : Prop :=
  ∀ m ∈ nodes, ∀ n ∈ nodes, m.text = n.text → m = n

instance (nodes : List Node) : Decidable (PrintApart nodes) :=
  inferInstanceAs (Decidable (∀ m ∈ nodes, ∀ n ∈ nodes, m.text = n.text → m = n))

namespace ResourceGraph

/-- Whether no two resources print alike. -/
def PrintsApart (g : ResourceGraph) : Prop :=
  PrintApart (g.resources.toList.map (·.node))

/-- What is shown of the resource with a given id. -/
def viewOf (g : ResourceGraph) (id : ResourceId) : View :=
  g.resources[id]?.elim default (·.view)

variable {g : ResourceGraph} {r : Resource} {ids : List ResourceId}

theorem Holds.viewOf (h : g.Holds r) : g.viewOf r.id = r.view := by
  rw [ResourceGraph.viewOf, h]
  rfl

/-- Resources that print apart are shown with different IRIs. -/
theorem PrintsApart.eq_of_iri {i j : ResourceId} (h : g.PrintsApart) (hg : Indexed g)
    (hi : i < g.size) (hj : j < g.size) (hiri : (g.viewOf i).iri = (g.viewOf j).iri) : i = j := by
  obtain ⟨r, hr⟩ := exists_resource hi
  obtain ⟨s, hs⟩ := exists_resource hj
  have hnode : r.node = s.node := by
    refine h r.node ?_ s.node ?_ ?_
    · exact List.mem_map_of_mem (mem_resources_iff.2 ⟨i, hr⟩)
    · exact List.mem_map_of_mem (mem_resources_iff.2 ⟨j, hs⟩)
    · rw [ResourceGraph.viewOf, ResourceGraph.viewOf, hr, hs] at hiri
      exact hiri
  exact hg.node_inj i j r s hr hs hnode

theorem PrintsApart.eq_of_view {s : Resource} (h : g.PrintsApart) (hg : Indexed g)
    (hr : g.Holds r) (hs : g.Holds s) (hview : r.view = s.view) : r = s := by
  refine hr.eq hs (h.eq_of_iri hg hr.lt_size hs.lt_size ?_)
  rw [hr.viewOf, hs.viewOf, hview]

theorem PrintsApart.nodup_iris (h : g.PrintsApart) (hg : Indexed g) (hids : ids.Nodup)
    (hlt : ∀ id ∈ ids, id < g.size) : ((ids.map g.viewOf).map (·.iri)).Nodup := by
  rw [List.map_map]
  refine hids.map_on ?_
  intro i hi j hj hsame
  exact h.eq_of_iri hg (hlt i hi) (hlt j hj) hsame

end ResourceGraph

/-- Taking a member away from a set takes it out of the listing. -/
theorem IdSet.perm_erase {id : ResourceId} {s : IdSet} (h : id ∈ s) :
    s.toList.Perm (id :: (s.erase id).toList) := by
  have herased : (s.erase id).toList = s.toList.erase id := (s.nodup.erase_eq_filter id).symm
  rw [herased]
  exact List.perm_cons_erase h

namespace Traversal

/-! ## Trees -/

/-- What holds of a tree that is done, at the end of a path: each node shows its resource where the
path allows it, references have no children, and concepts have those that their place demands. -/
inductive Placed (g : ResourceGraph) : List Resource → Tree Entry → Prop where
  | reference {path : List Resource} {r : Resource} {e : Entry} (reference : e.reference = true)
      (shown : Shown g path r e) : Placed g path (.leaf e)
  | owned {path : List Resource} {r : Resource} {e : Entry} {children : List (Tree Entry)}
      (owned : e.reference = false) (shown : Shown g path r e)
      (exact : g.PrintsApart → r.kind = .concept →
        (children.map (·.value.view)).Perm ((g.narrowerIn path r).map g.viewOf))
      (below : ∀ c ∈ children, Placed g (r :: path) c) : Placed g path (.node e children)

variable {g : ResourceGraph} {path : List Resource} {f : Frame} {t : Tree Entry}

theorem Placed.leaf (h : Placed g path t) (hhref : t.value.reference = true) : t.children = [] := by
  cases h with
  | reference => rfl
  | owned howned =>
    rw [Tree.value_node, howned] at hhref
    cases hhref

/-! ## Frames and stages -/

/-- What holds of a frame at the end of a path, where `placing` is shown of the child that is being
placed, if there is one. Done children are placed, and the children of a concept, with those to
come, are those that its place demands. -/
structure Faithful (g : ResourceGraph) (placing : List View) (path : List Resource) (f : Frame) :
    Prop where
  placed : ∀ t ∈ f.done, Placed g (f.resource :: path) t
  exact : f.resource.kind = .concept →
    (f.done.map (·.value.view) ++ placing ++ f.pending.map fun e => g.viewOf e.target).Perm
      ((g.narrowerIn path f.resource).map g.viewOf)

/-- Each frame is faithful on those below it. -/
def AllFaithful (g : ResourceGraph) : List View → List Frame → Prop
  | _, [] => True
  | placing, f :: below =>
    Faithful g placing (pathOf below) f ∧ AllFaithful g [f.resource.view] below

/-- What is shown of the resources that are placed or being placed. -/
def placedViews (frames : List Frame) : List View :=
  frames.flatMap fun f => f.resource.view :: Forest.ownedViews f.done

theorem placedViews_cons (f : Frame) (below : List Frame) : placedViews (f :: below) =
    f.resource.view :: (Forest.ownedViews f.done ++ placedViews below) :=
  rfl

/-- What is shown of the resources that are not visited. -/
def unvisitedViews (g : ResourceGraph) (p : Progress) : List View :=
  p.unvisited.toList.map g.viewOf

/-- What holds of a stage, where `total` is shown of the resources that were there to be placed: no
resource is lost, and none is placed twice. -/
structure Stage.Faithful (g : ResourceGraph) (total : List View) (s : Stage) : Prop where
  frames : AllFaithful g [] s.frames
  covered : g.PrintsApart →
    (placedViews s.frames ++ unvisitedViews g s.progress).Perm total

variable {p : Progress} {total : List View} {s next : Stage}

/-! ## Closing a frame -/

/-- The children of a frame without pending edges show different IRIs, if it is a concept. -/
theorem Faithful.nodup_keys (h : Sound g) (hapart : g.PrintsApart) (hf : Seated g path f)
    (hfaithful : Faithful g [] path f) (hpending : f.pending = [])
    (hkind : f.resource.kind = .concept) : (f.done.map siblingKey).Nodup := by
  have hexact := hfaithful.exact hkind
  rw [hpending, List.append_nil, List.map_nil, List.append_nil] at hexact
  have hinside : ∀ id ∈ g.narrowerIn path f.resource, id < g.size := fun _ hid =>
    hf.shown.holds.narrower_lt h (ResourceGraph.mem_narrowerIn h hf.shown.holds hid).1
  have hiris := hapart.nodup_iris h.indexed ResourceGraph.narrowerIn_nodup hinside
  have hnodup := (hexact.map (·.iri)).nodup_iff.2 hiris
  -- keys hold IRIs, so that they differ where IRIs do
  refine List.Nodup.of_map SiblingKey.iri ?_
  rw [List.map_map] at hnodup ⊢
  exact hnodup

/-- A concept without pending edges keeps all its children when it is closed. -/
theorem Faithful.close_perm (h : Sound g) (hapart : g.PrintsApart) (hf : Seated g path f)
    (hfaithful : Faithful g [] path f) (hpending : f.pending = [])
    (hkind : f.resource.kind = .concept) : f.close.children.Perm f.done := by
  have hkeys := hfaithful.nodup_keys h hapart hf hpending hkind
  have hreversed : (f.done.reverse.map siblingKey).Nodup :=
    ((List.reverse_perm f.done).map siblingKey).nodup_iff.2 hkeys
  exact (sortSiblings_perm hreversed).trans (List.reverse_perm f.done)

/-- A frame that has no pending edges leaves a tree that is placed. -/
theorem close_placed (h : Sound g) (hf : Seated g path f) (hfaithful : Faithful g [] path f)
    (hpending : f.pending = []) : Placed g path f.close := by
  refine .owned hf.owned hf.shown (fun hapart hkind => ?_) fun t ht => ?_
  · have hkept := hfaithful.close_perm h hapart hf hpending hkind
    have hexact := hfaithful.exact hkind
    rw [hpending, List.append_nil, List.map_nil, List.append_nil] at hexact
    exact (hkept.map (·.value.view)).trans hexact
  · exact hfaithful.placed t (List.mem_reverse.1 (mem_of_mem_sortSiblings ht))

/-- The tree that a frame leaves owns its resource and what its children own. -/
theorem close_covered (hf : Seated g path f)
    (hplaced : ∀ t ∈ f.done, Placed g (f.resource :: path) t)
    (hnodup : ((Forest.ownedViews f.done).map (·.iri)).Nodup) :
    (Forest.ownedViews [f.close]).Perm (f.resource.view :: Forest.ownedViews f.done) := by
  have hreversed : (Forest.ownedViews f.done.reverse).Perm (Forest.ownedViews f.done) :=
    Forest.ownedViews_perm (List.reverse_perm f.done)
  have hleaves : ∀ t ∈ f.done.reverse, t.value.reference = true → t.children = [] := by
    intro t ht hhref
    exact (hplaced t (List.mem_reverse.1 ht)).leaf hhref
  have hsorted := Forest.ownedViews_sortSiblings hleaves
    ((hreversed.map (·.iri)).nodup_iff.2 hnodup)
  have howned : f.close.value.reference = false := hf.owned
  rw [Forest.ownedViews_cons_owned howned, Forest.ownedViews_nil, List.append_nil]
  show (f.entry.view :: Forest.ownedViews (sortSiblings f.done.reverse)).Perm _
  rw [hf.shown.view_eq]
  exact (hsorted.trans hreversed).cons _

/-! ## Opening a resource -/

/-- The concepts below a concept are what its edges lead to. -/
theorem map_edgesBelow {r : Resource} (hkind : r.kind = .concept) :
    (edgesBelow g path r).map (fun e => g.viewOf e.target) =
      (g.narrowerIn path r).map g.viewOf := by
  unfold edgesBelow
  rw [hkind, List.map_map]
  rfl

/-- A resource that was just opened has all its children to come. -/
theorem Opened.faithful {e : Edge} (h : Opened g path e f) : Faithful g [] path f := by
  refine ⟨?_, ?_⟩
  · rw [h.done_eq]
    intro t ht
    cases ht
  · intro hkind
    rw [h.done_eq, ← map_edgesBelow hkind]
    exact h.pending_perm.map _

/-- A resource that was just opened is no longer unvisited. -/
theorem Opened.covered {e : Edge} (h : Opened g path e f) (hfresh : e.target ∈ p.unvisited)
    (below : List Frame) :
    (placedViews (f :: below) ++ unvisitedViews g (p.visit e.target)).Perm
      (placedViews below ++ unvisitedViews g p) := by
  have herased := (IdSet.perm_erase hfresh).map g.viewOf
  rw [List.map_cons, h.target_eq, h.seated.shown.holds.viewOf] at herased
  rw [placedViews_cons, h.done_eq, Forest.ownedViews_nil, h.target_eq]
  exact List.perm_middle.symm.trans (herased.symm.append_left _)

/-! ## Following an edge -/

/-- What an edge leads to is what is placed next. -/
theorem Faithful.follow {e : Edge} {later : List Edge} {v : View} (h : Faithful g [] path f)
    (hpending : f.pending = e :: later) (hview : g.viewOf e.target = v) :
    Faithful g [v] path (f.leaving later) := by
  refine ⟨h.placed, fun hkind => ?_⟩
  have hexact := h.exact hkind
  rw [hpending, List.map_cons, hview, List.append_nil] at hexact
  show (f.done.map _ ++ [v] ++ _).Perm _
  rw [List.append_assoc]
  exact hexact

/-- What was being placed becomes a child. -/
theorem Faithful.add {v : View} (h : Faithful g [v] path f)
    (ht : Placed g (f.resource :: path) t) (hview : t.value.view = v) :
    Faithful g [] path (f.add t) := by
  refine ⟨?_, fun hkind => ?_⟩
  · intro s hs
    rcases List.mem_cons.1 hs with rfl | hs
    · exact ht
    · exact h.placed s hs
  · refine List.Perm.trans ?_ (h.exact hkind)
    show (t.value.view :: f.done.map _ ++ [] ++ _).Perm _
    rw [hview, List.append_nil, List.append_assoc]
    exact List.perm_middle.symm

/-- Only contexts take up members, and their children are not prescribed. -/
theorem Faithful.takeUp {id : ResourceId} (h : Faithful g [] path f)
    (hgathers : f.resource.kind.gathers = true) : Faithful g [] path (f.takeUp id) := by
  refine ⟨h.placed, fun hkind => ?_⟩
  change f.resource.kind = .concept at hkind
  rw [hkind] at hgathers
  cases hgathers

/-- A reference owns nothing. -/
theorem placedViews_refer (path : List Resource) (e : Edge) (r : Resource) (f : Frame)
    (below : List Frame) :
    placedViews (f.add (referenceTo path e r) :: below) = placedViews (f :: below) := by
  rw [placedViews_cons, placedViews_cons]
  show f.resource.view :: (Forest.ownedViews (referenceTo path e r :: f.done) ++ _) = _
  rw [Forest.ownedViews_cons_reference rfl rfl]

/-- A tree that becomes a child owns what its frame did. -/
theorem placedViews_close {parent : Frame} (rest : List Frame)
    (h : (Forest.ownedViews [f.close]).Perm (f.resource.view :: Forest.ownedViews f.done)) :
    (placedViews (parent.add f.close :: rest)).Perm (placedViews (f :: parent :: rest)) := by
  have hjoined : Forest.ownedViews (parent.add f.close).done =
      Forest.ownedViews [f.close] ++ Forest.ownedViews parent.done :=
    Forest.ownedViews_append [f.close] parent.done
  rw [placedViews_cons, placedViews_cons, placedViews_cons, hjoined, List.append_assoc]
  exact List.perm_middle.symm.trans (h.append_right _)

/-! ## Turns -/

/-- What the children of the innermost frame own is shown with different IRIs. -/
theorem Stage.Faithful.nodup_done {below : List Frame}
    (h : Stage.Faithful g total ⟨f :: below, p⟩) (hapart : g.PrintsApart)
    (htotal : (total.map (·.iri)).Nodup) : ((Forest.ownedViews f.done).map (·.iri)).Nodup := by
  have hpart : (Forest.ownedViews f.done).Sublist
      (placedViews (f :: below) ++ unvisitedViews g p) :=
    ((List.sublist_append_left _ _).cons _).trans (List.sublist_append_left _ _)
  have hall := ((h.covered hapart).map (·.iri)).nodup_iff.2 htotal
  exact hall.sublist (hpart.map _)

/-- Every turn keeps a stage faithful. -/
theorem Steps.faithful (h : Sound g) (hs : s.Valid g) (hfaithful : s.Faithful g total)
    (htotal : g.PrintsApart → (total.map (·.iri)).Nodup) (hstep : Steps g s (.next next)) :
    next.Faithful g total := by
  cases hstep with
  | @opened top frame below p e later hpending hfresh hopened =>
    obtain ⟨htopFaithful, hrest⟩ := hfaithful.frames
    have hview : g.viewOf e.target = frame.resource.view := by
      rw [hopened.target_eq]
      exact hopened.seated.shown.holds.viewOf
    -- the resource moves from what is unvisited to what is being placed
    refine ⟨⟨hopened.faithful, htopFaithful.follow hpending hview, hrest⟩, fun hapart => ?_⟩
    exact (hopened.covered hfresh (top.leaving later :: below)).trans (hfaithful.covered hapart)
  | @referred top below p e later r hpending hvisited hholds htarget =>
    obtain ⟨htopFaithful, hrest⟩ := hfaithful.frames
    obtain ⟨hseated, _⟩ := hs.seated
    have hapt := hseated.pending_apt e (hpending ▸ List.mem_cons_self)
    have hview : g.viewOf e.target = r.view := by
      rw [htarget]
      exact hholds.viewOf
    have hplaced : Placed g (pathOf (top :: below)) (referenceTo (pathOf (top :: below)) e r) :=
      .reference rfl ⟨hapt.fits hholds htarget, rfl, rfl⟩
    refine ⟨⟨(htopFaithful.follow hpending hview).add hplaced rfl, hrest⟩, fun hapart => ?_⟩
    show (placedViews _ ++ unvisitedViews g p).Perm total
    rw [placedViews_refer]
    exact hfaithful.covered hapart
  | @tookUp top below p id hpending hleftover =>
    obtain ⟨htopFaithful, hrest⟩ := hfaithful.frames
    obtain ⟨hseated, _⟩ := hs.seated
    exact ⟨⟨htopFaithful.takeUp (Seated.leftover hseated hleftover).1, hrest⟩, hfaithful.covered⟩
  | @closed top parent rest p hpending hleftover =>
    obtain ⟨htopFaithful, hparentFaithful, hrestFaithful⟩ := hfaithful.frames
    obtain ⟨hseated, _⟩ := hs.seated
    have hplaced := close_placed h hseated htopFaithful hpending
    refine ⟨⟨hparentFaithful.add hplaced hseated.shown.view_eq, hrestFaithful⟩, fun hapart => ?_⟩
    -- sorting drops no owned child, since what is owned is shown with different IRIs
    have hnodup := hfaithful.nodup_done hapart (htotal hapart)
    have hclosed := close_covered hseated htopFaithful.placed hnodup
    exact ((placedViews_close rest hclosed).append_right _).trans (hfaithful.covered hapart)

/-- The tree that is left when the root is closed is placed, and it owns what is not unvisited. -/
theorem Steps.finished_spec (h : Sound g) (hs : s.Valid g) (hfaithful : s.Faithful g total)
    (htotal : g.PrintsApart → (total.map (·.iri)).Nodup) (hstep : Steps g s (.finished t p)) :
    Placed g [] t ∧ Settled g [] p.unvisited ∧
      (g.PrintsApart → (Forest.ownedViews [t] ++ unvisitedViews g p).Perm total) := by
  cases hstep with
  | @finished top _ hpending hleftover =>
    obtain ⟨htopFaithful, _⟩ := hfaithful.frames
    obtain ⟨hseated, _⟩ := hs.seated
    refine ⟨close_placed h hseated htopFaithful hpending,
      Settled.close hseated hs.settled hleftover, ?_⟩
    intro hapart
    have hnodup := hfaithful.nodup_done hapart (htotal hapart)
    have hclosed := close_covered hseated htopFaithful.placed hnodup
    have honly : placedViews [top] = top.resource.view :: Forest.ownedViews top.done := by
      rw [placedViews_cons]
      exact congrArg _ (List.append_nil _)
    have hcovered := hfaithful.covered hapart
    change (placedViews [top] ++ unvisitedViews g p).Perm total at hcovered
    rw [honly] at hcovered
    exact (hclosed.append_right _).trans hcovered

end Traversal

end Thesaurus
