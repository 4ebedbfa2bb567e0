import Thesaurus.Proofs.Forest.Closing
import Thesaurus.Proofs.Forest.Positions
import Thesaurus.Proofs.Forest.Promotion
import Thesaurus.Proofs.Forest.References

/-!
# The order of discovery

Without schemes and collections a traversal follows edges in the order in which nodes are shown, so
that sorting has nothing left to do when a node is closed. Whatever is found is appended to what was
found before: a forest lists its nodes in the order in which they were found, and a resource that is
referred to was found before.

- `openings`, `openingsFrom`, `openingsOfEach`, `openingsOfLeft`, `openingOrder`: the resources that
  a traversal opens, in order.
- `Precedes`: the order in which resources are shown.
- `InOrder`, `AllInOrder`: the invariant, that children are found in this order.
- `laidOut`: the nodes that open frames have found so far, which every turn appends to.
- `Log`: what holds of the nodes that were found so far.
- `turn_discovers`, `run_discovers`: what one turn appends, and what all turns do.
- `discovery_shown`: the forest shows the order of discovery.
-/

namespace Thesaurus

open Rdf (Triple)

/-- What the nodes of some trees show, in pre-order. -/
def Forest.entries (f : Forest) : List Entry :=
  f.nodes.map (·.value)

@[simp]
theorem Forest.entries_nil : Forest.entries [] = [] := by
  simp [Forest.entries, Forest.nodes, Tree.walk]

theorem Forest.entries_append (f f' : Forest) :
    Forest.entries (f ++ f') = Forest.entries f ++ Forest.entries f' := by
  simp [Forest.entries, Forest.nodes, Tree.walk_append]

/-- A tree lists its root before what is below it. -/
theorem Forest.entries_singleton (t : Tree Entry) :
    Forest.entries [t] = t.value :: Forest.entries t.children := by
  simp [Forest.entries, Forest.nodes, Tree.walk_cons, Tree.walk]

theorem Forest.entries_leaf (e : Entry) : Forest.entries [Tree.leaf e] = [e] := by
  rw [Forest.entries_singleton]
  exact congrArg (e :: ·) Forest.entries_nil

/-- What owned nodes show of their resources. -/
def ownedIn (entries : List Entry) : List View :=
  (entries.filter (!·.reference)).map (·.view)

/-- What is owned is the part of what is shown that is no reference. -/
theorem Forest.ownedViews_eq (f : Forest) : f.ownedViews = ownedIn (Forest.entries f) := by
  rw [ownedIn, Forest.entries, List.filter_map, List.map_map]
  rfl

/-- No IRI is owned both before and after a node if none is owned twice. -/
theorem Forest.ne_of_owned {f : Forest} {before after : List (Tree Entry)} {s t u : Tree Entry}
    (hnodup : (f.ownedViews.map (·.iri)).Nodup) (hsplit : f.nodes = before ++ t :: after)
    (hs : s ∈ before) (howned : s.value.reference = false) (hu : u ∈ after)
    (howned' : u.value.reference = false) : u.value.iri ≠ s.value.iri := by
  rw [Forest.ownedViews, hsplit, List.map_map, List.filter_append, List.map_append] at hnodup
  have hapart := (List.nodup_append.1 hnodup).2.2
  refine fun hsame => hapart s.value.iri ?_ u.value.iri ?_ hsame.symm
  · exact List.mem_map.2 ⟨s, List.mem_filter.2 ⟨hs, by simp [howned]⟩, rfl⟩
  · refine List.mem_map.2 ⟨u, List.mem_filter.2 ⟨List.mem_cons_of_mem _ hu, ?_⟩, rfl⟩
    simp [howned']

namespace Traversal

/-! ## What is opened -/

/-- The resource that is opened by a turn that leads from one stage to another: a turn that adds a
frame opens the resource of that frame, and no other turn opens any. -/
def openedBy (s later : Stage) : List ResourceId :=
  if s.frames.length < later.frames.length then (later.frames.map (·.resource.id)).take 1 else []

/-- The resources that the turns open until the root is closed, in order. -/
def openings (g : ResourceGraph) (rootIri : String) (s : Stage) : List ResourceId :=
  match _h : turn g rootIri s with
  | .ok (.next later) => openedBy s later ++ openings g rootIri later
  | .ok (.finished _ _) | .error _ => []
termination_by s.measure
decreasing_by exact turn_decreases _h

/-- The resources that are opened while a tree is grown from an edge. -/
def openingsFrom (g : ResourceGraph) (e : Edge) (p : Progress) : List ResourceId :=
  match place g (openContexts []) e with
  | .ok frame => frame.resource.id :: openings g frame.entry.iri ⟨[frame], p.visit e.target⟩
  | .error _ => []

/-- The resources that are opened while trees are grown from the given ones. -/
def openingsOfEach (g : ResourceGraph) : List ResourceId → Progress → List ResourceId
  | [], _ => []
  | id :: rest, p =>
    if id ∈ p.unvisited then
      match grow g { target := id } p with
      | .ok (_, later) => openingsFrom g { target := id } p ++ openingsOfEach g rest later
      | .error _ => []
    else openingsOfEach g rest p

/-- The resources that are opened while trees are grown from whatever is left. -/
def openingsOfLeft (g : ResourceGraph) (p : Progress) : List ResourceId :=
  match _hp : p.unvisited.toList with
  | [] => []
  | id :: _ =>
    match _hg : grow g { target := id } p with
    | .ok (_, later) => openingsFrom g { target := id } p ++ openingsOfLeft g later
    | .error _ => []
termination_by p.unvisited.size
decreasing_by exact size_of_grow _hg (IdSet.mem_def.2 (_hp ▸ List.mem_cons_self))

/-- The resources that are opened while the forest of a graph is built, in order. -/
def openingOrder (g : ResourceGraph) : List ResourceId :=
  match roots g with
  | .error _ => []
  | .ok planned =>
    openingsOfEach g planned { unvisited := typedIds g } ++
      match growEach g planned { unvisited := typedIds g } with
      | .ok (_, p) => openingsOfLeft g p
      | .error _ => []

variable {g : ResourceGraph} {s later : Stage} {rootIri : String} {tree : Tree Entry} {p : Progress}

theorem openings_next (hturned : turn g rootIri s = .ok (.next later)) :
    openings g rootIri s = openedBy s later ++ openings g rootIri later := by
  rw [openings]
  split
  · next hturned' =>
    rw [hturned] at hturned'
    cases hturned'
    rfl
  · next hturned' => rw [hturned] at hturned'; cases hturned'
  · next hturned' => rw [hturned] at hturned'; cases hturned'

theorem openings_finished (hturned : turn g rootIri s = .ok (.finished tree p)) :
    openings g rootIri s = [] := by
  rw [openings]
  split
  · next hturned' => rw [hturned] at hturned'; cases hturned'
  · rfl
  · rfl

/-- Where nothing is left, nothing more is opened. -/
theorem openingsOfLeft_of_nothing (h : p.unvisited.toList = []) : openingsOfLeft g p = [] := by
  rw [openingsOfLeft]
  split
  · rfl
  · next hfirst =>
    rw [h] at hfirst
    cases hfirst

/-- Where nothing is left after the roots, the traversal opens what the roots lead to. -/
theorem Phases.openingOrder_eq (ph : Phases g) (h : Sound g)
    (hnone : ph.afterCollections.unvisited.toList = []) :
    openingOrder g = openingsOfEach g (plannedRoots g) { unvisited := typedIds g } := by
  simp only [openingOrder, roots_eq h, ph.grown_roots, openingsOfLeft_of_nothing hnone,
    List.append_nil]

end Traversal

/-! ## The order in which resources are shown -/

/-- The key by which a resource is placed that has no position and is no top concept. -/
def plainKey (v : View) : SiblingKey :=
  .ofView v none false false

/-- Whether a resource is shown before another one. -/
def Precedes (v w : View) : Prop :=
  SiblingKey.compare (plainKey v) (plainKey w) = .lt

/-- Whether a node has no position and is not flagged as a top concept. -/
structure Entry.IsPlain (e : Entry) : Prop where
  position_eq : e.position = none
  top_eq : e.topConcept = false

/-- Nodes are in the order of what they show, whether they are owned or not. -/
theorem compare_of_precedes {d e : Entry} (hd : d.IsPlain) (he : e.IsPlain)
    (h : Precedes d.view e.view) : SiblingKey.compare (.ofEntry d) (.ofEntry e) = .lt := by
  simp only [Precedes, plainKey, SiblingKey.compare, SiblingKey.ofView, SiblingKey.ofEntry,
    Ordering.then_eq_lt, hd.position_eq, hd.top_eq, he.position_eq, he.top_eq] at h ⊢
  grind

/-- Siblings that are found in order are left as they are. -/
theorem sortSiblings_of_precedes {siblings : List (Tree Entry)}
    (hplain : ∀ t ∈ siblings, t.value.IsPlain)
    (h : (siblings.map (·.value.view)).Pairwise Precedes) : sortSiblings siblings = siblings :=
  sortSiblings_eq_self ((List.pairwise_map.1 h).imp_of_mem fun ha hb hless =>
    compare_of_precedes (hplain _ ha) (hplain _ hb) hless)

/-- What is sorted and has different keys ascends strictly. -/
theorem ascending_of_sorted {α κ : Type} {key : α → κ} {cmp : κ → κ → Ordering} {l : List α}
    [Std.LawfulEqCmp cmp] (hsorted : l.Pairwise fun a b => (cmp (key a) (key b)).isLE = true)
    (hnodup : (l.map key).Nodup) : l.Pairwise fun a b => cmp (key a) (key b) = .lt := by
  refine (hsorted.and (List.pairwise_map.1 hnodup)).imp fun {a b} ⟨hle, hne⟩ => ?_
  cases hcompared : cmp (key a) (key b) with
  | lt => rfl
  | eq => exact absurd (Std.LawfulEqCmp.eq_of_compare hcompared) hne
  | gt => rw [hcompared] at hle; cases hle

namespace Traversal

variable {g : ResourceGraph} {path : List Resource} {f top : Frame} {below frames : List Frame}
  {p p' : Progress} {s later : Stage} {e : Edge} {r : Resource} {id : ResourceId}
  {tree : Tree Entry} {rootIri : String} {log : List Entry} {u : IdSet} {placing : List View}

section Classic

variable (hclassic : g.IsClassic) (h : Sound g)

include hclassic h

/-- There are no contexts on a path. -/
theorem nearestContext?_classic (hpath : ∀ q ∈ path, g.Holds q) : nearestContext? path = none := by
  refine List.find?_eq_none.2 fun q hq => ?_
  simp [(concept_of_classic h hclassic.1 hclassic.2 (hpath q hq)).1]

theorem isTopOn_classic (hpath : ∀ q ∈ path, g.Holds q) : isTopOn path id = false := by
  rw [isTopOn, nearestContext?_classic hclassic h hpath]
  rfl

/-- The edges below a concept lead to concepts at no positions. -/
theorem edgesBelow_classic (hr : g.Holds r) (he : e ∈ edgesBelow g path r) :
    e.position = none ∧ g.kindOf e.target = .concept := by
  have hgathers := (concept_of_classic h hclassic.1 hclassic.2 hr).1
  unfold edgesBelow at he
  cases hkind : r.kind with
  | concept =>
    rw [hkind] at he
    obtain ⟨id, hid, rfl⟩ := List.mem_map.1 he
    exact ⟨rfl, (ResourceGraph.mem_narrowerIn h hr hid).2⟩
  | unknown => rw [hkind] at he; cases he
  | conceptScheme => rw [hkind] at hgathers; cases hgathers
  | collection => rw [hkind] at hgathers; cases hgathers
  | orderedCollection => rw [hkind] at hgathers; cases hgathers

/-- Edges are followed in the order in which what they lead to is shown. -/
theorem plannedEdges_precedes (horders : g.OrdersExact) (hapart : g.PrintsApart)
    (hpath : ∀ q ∈ path, g.Holds q) (hr : g.Holds r) :
    ((plannedEdges g path r).map (g.viewOf ·.target)).Pairwise Precedes := by
  have hkeys : ∀ e ∈ plannedEdges g path r,
      keyOn g (r :: path) e = some (plainKey (g.viewOf e.target)) := by
    intro e he
    have hbelow := mem_plannedEdges.1 he
    obtain ⟨s, hs, htarget⟩ := ResourceGraph.exists_held h.indexed (edgesBelow_lt h hr hbelow)
    have htop : isTopOn (r :: path) e.target = false :=
      isTopOn_classic hclassic h (List.forall_mem_cons.2 ⟨hr, hpath⟩)
    rw [keyOn, htop, (edgesBelow_classic hclassic h hr hbelow).1, ← htarget, hs, hs.viewOf]
    rfl
  have hnodup : ((plannedEdges g path r).map (keyOn g (r :: path))).Nodup := by
    refine List.Nodup.map_on (fun a ha b hb hsame => ?_) ?_
    · exact eq_of_keyOn h horders hapart hr (mem_plannedEdges.1 ha) (mem_plannedEdges.1 hb) hsame
    · exact List.Nodup.of_map _ (plannedEdges_nodup horders hr)
  have hascending : (plannedEdges g path r).Pairwise fun a b =>
      absentLast SiblingKey.compare (keyOn g (r :: path) a) (keyOn g (r :: path) b) = .lt :=
    ascending_of_sorted (sortOn_pairwise _) hnodup
  refine List.pairwise_map.2 (hascending.imp_of_mem fun ha hb hless => ?_)
  rw [hkeys _ ha, hkeys _ hb] at hless
  exact hless

end Classic

/-! ## What open frames have found -/

/-- The nodes that a frame has found so far, in pre-order. -/
def Frame.laid (f : Frame) : List Entry :=
  f.entry :: Forest.entries f.done.reverse

/-- A new child is found last. -/
theorem Frame.laid_add (f : Frame) (t : Tree Entry) :
    (f.add t).laid = f.laid ++ Forest.entries [t] := by
  rw [Frame.laid, Frame.add, List.reverse_cons, Forest.entries_append]
  rfl

/-- The nodes that all open frames have found so far, in pre-order. -/
def laidOut : List Frame → List Entry
  | [] => []
  | f :: below => laidOut below ++ f.laid

/-- Whether the children of a frame were found in order, and what is being placed and what edges
lead to comes after them. None of these nodes has a position or is flagged as a top concept. -/
structure InOrder (g : ResourceGraph) (placing : List View) (f : Frame) : Prop where
  plain : f.entry.IsPlain
  children : ∀ c ∈ f.done, c.value.IsPlain
  edges : ∀ e ∈ f.pending, e.position = none ∧ g.kindOf e.target = .concept
  ascending : (f.done.reverse.map (·.value.view) ++ placing ++
    f.pending.map (g.viewOf ·.target)).Pairwise Precedes

/-- Whether this holds of all frames, where each is placing the resource of the next. -/
def AllInOrder (g : ResourceGraph) : List View → List Frame → Prop
  | _, [] => True
  | placing, f :: below => InOrder g placing f ∧ AllInOrder g [f.entry.view] below

namespace InOrder

/-- What the next edge leads to is what is placed next. -/
theorem follow {rest : List Edge} (hf : InOrder g [] f) (hpending : f.pending = e :: rest) :
    InOrder g [g.viewOf e.target] (f.leaving rest) where
  plain := hf.plain
  children := hf.children
  edges := fun e' he' => hf.edges e' (hpending ▸ List.mem_cons_of_mem _ he')
  ascending := by
    have hascending := hf.ascending
    rw [hpending, List.append_nil, List.map_cons, ← List.singleton_append, ← List.append_assoc]
      at hascending
    exact hascending

/-- What was being placed becomes the last child. -/
theorem add (hf : InOrder g [tree.value.view] f) (hplain : tree.value.IsPlain) :
    InOrder g [] (f.add tree) where
  plain := hf.plain
  children := List.forall_mem_cons.2 ⟨hplain, hf.children⟩
  edges := hf.edges
  ascending := by
    have hascending := hf.ascending
    rw [Frame.add, List.reverse_cons, List.map_append, List.append_nil]
    exact hascending

/-- Closing a frame leaves its nodes where they were found. -/
theorem entries_close (hf : InOrder g placing f) : Forest.entries [f.close] = f.laid := by
  have hascending := (List.pairwise_append.1 (List.pairwise_append.1 hf.ascending).1).1
  have hsame : sortSiblings f.done.reverse = f.done.reverse :=
    sortSiblings_of_precedes (fun t ht => hf.children t (List.mem_reverse.1 ht)) hascending
  rw [Frame.close, hsame, Forest.entries_singleton]
  rfl

end InOrder

/-- A resource that is opened has all that is below it still to come, in order. -/
theorem openedFrame_inOrder (hclassic : g.IsClassic) (h : Sound g) (horders : g.OrdersExact)
    (hapart : g.PrintsApart) (hpath : ∀ q ∈ path, g.Holds q) (hr : g.Holds r)
    (hposition : e.position = none) : InOrder g [] (openedFrame g path e r) where
  plain := ⟨hposition, isTopOn_classic hclassic h hpath⟩
  children := fun _ hc => absurd hc List.not_mem_nil
  edges := fun _ he => edgesBelow_classic hclassic h hr (mem_plannedEdges.1 he)
  ascending := plannedEdges_precedes hclassic h horders hapart hpath hr

/-! ## The log -/

/-- What holds of all nodes that were found so far: what is visited was found and is owned, and what
is referred to was found before. -/
structure Log (g : ResourceGraph) (u : IdSet) (log : List Entry) : Prop where
  visited : ∀ q, g.Holds q → q.kind.isKnown = true → q.id ∉ u →
    ∃ d ∈ log, d.reference = false ∧ d.view = q.view
  references : ∀ before e after, log = before ++ e :: after → e.reference = true →
    ∃ d ∈ before, d.reference = false ∧ d.view = e.view

namespace Log

variable {d : Entry}

theorem start : Log g (typedIds g) [] where
  visited := by
    intro q hq hknown hunvisited
    exact absurd (mem_typedIds hq hknown) hunvisited
  references := by
    intro before e after hsplit
    simp at hsplit

/-- One more node keeps references behind what they refer to, if it was found when this is one. -/
theorem references_concat (hlog : Log g u log)
    (hd : d.reference = true → ∃ o ∈ log, o.reference = false ∧ o.view = d.view) :
    ∀ before e after, log ++ [d] = before ++ e :: after → e.reference = true →
      ∃ o ∈ before, o.reference = false ∧ o.view = e.view := by
  intro before e after hsplit hhref
  rcases List.eq_nil_or_concat after with rfl | ⟨after', last, rfl⟩
  · obtain ⟨rfl, hsame⟩ := List.append_inj' hsplit rfl
    cases hsame
    exact hd hhref
  · rw [List.concat_eq_append, ← List.cons_append, ← List.append_assoc] at hsplit
    exact hlog.references before e after' (List.append_inj' hsplit rfl).1 hhref

/-- An owned node is added when its resource is visited. -/
theorem opened (hlog : Log g u log) (hr : g.Holds r) (howned : d.reference = false)
    (hview : d.view = r.view) : Log g (u.erase r.id) (log ++ [d]) where
  visited := by
    intro q hq hknown hvisited
    by_cases hsame : q.id = r.id
    · exact ⟨d, by simp, howned, by rw [hview, hq.eq hr hsame]⟩
    · obtain ⟨o, ho, hfound⟩ := hlog.visited q hq hknown fun hmem =>
        hvisited (IdSet.mem_erase.2 ⟨hmem, hsame⟩)
      exact ⟨o, List.mem_append_left _ ho, hfound⟩
  references := hlog.references_concat fun hhref => by rw [howned] at hhref; cases hhref

/-- A reference is added to what is visited. -/
theorem referred (hlog : Log g u log) (hr : g.Holds r) (hknown : r.kind.isKnown = true)
    (hvisited : r.id ∉ u) (hview : d.view = r.view) : Log g u (log ++ [d]) where
  visited := by
    intro q hq hknown' hvisited'
    obtain ⟨o, ho, hfound⟩ := hlog.visited q hq hknown' hvisited'
    exact ⟨o, List.mem_append_left _ ho, hfound⟩
  references := hlog.references_concat fun _ => hview ▸ hlog.visited r hr hknown hvisited

/-- A forest whose nodes were found like this shows the owned node before every reference to it, if
it owns no IRI twice. -/
theorem owned_before {f : Forest} {before after : List (Tree Entry)} {t : Tree Entry}
    (hlog : Log g u (Forest.entries f)) (hnodup : (f.ownedViews.map (·.iri)).Nodup)
    (hsplit : f.nodes = before ++ t :: after) (hhref : t.value.reference = true) :
    (∃ s ∈ before, s.value.reference = false ∧ s.value.view = t.value.view) ∧
      ∀ s ∈ after, s.value.reference = false → s.value.iri ≠ t.value.iri := by
  have hlisted : Forest.entries f =
      before.map (·.value) ++ t.value :: after.map (·.value) := by
    rw [Forest.entries, hsplit, List.map_append, List.map_cons]
  obtain ⟨d, hd, hownedBefore, hview⟩ := hlog.references _ _ _ hlisted hhref
  obtain ⟨s, hs, rfl⟩ := List.mem_map.1 hd
  refine ⟨⟨s, hs, hownedBefore, hview⟩, fun v hv hownedAfter => ?_⟩
  have hsame : s.value.iri = t.value.iri := congrArg View.iri hview
  rw [← hsame]
  exact Forest.ne_of_owned hnodup hsplit hs hownedBefore hv hownedAfter

end Log

/-! ## Turns -/

section Turns

variable (hclassic : g.IsClassic) (h : Sound g) (horders : g.OrdersExact) (hapart : g.PrintsApart)

include hclassic h horders hapart

/-- Every turn appends what it finds, and owned nodes only for what it opens. -/
theorem turn_discovers (hs : s.Valid g) (hin : AllInOrder g [] s.frames)
    (hturned : turn g rootIri s = .ok (.next later)) : AllInOrder g [] later.frames ∧
      ∃ more, laidOut later.frames = laidOut s.frames ++ more ∧
        ownedIn more = (openedBy s later).map g.viewOf ∧
        ∀ log, Log g s.progress.unvisited log → Log g later.progress.unvisited (log ++ more) := by
  obtain ⟨_, hturned', hsteps⟩ := turn_steps rootIri h hs
  rw [hturned] at hturned'
  cases hturned'
  have hpath := hs.seated.holds
  cases hsteps with
  | @opened top frame below p e rest hpending hfresh hopened =>
    obtain ⟨r, hholds, htarget, hturned'⟩ := turn_opened rootIri h hs hpending hfresh
    rw [hturned] at hturned'
    cases hturned'
    obtain ⟨htopInOrder, hbelowInOrder⟩ := hin
    have hfollow := htopInOrder.follow hpending
    rw [htarget, hholds.viewOf] at hfollow
    have hposition := (htopInOrder.edges e (hpending ▸ List.mem_cons_self)).1
    refine ⟨⟨openedFrame_inOrder hclassic h horders hapart hpath hholds hposition, hfollow,
      hbelowInOrder⟩, [(openedFrame g (pathOf (top :: below)) e r).entry], ?_, ?_, ?_⟩
    · simp [laidOut, Frame.laid, Frame.leaving, openedFrame]
    · simp [ownedIn, openedBy, openedFrame, hholds.viewOf]
    · intro log hlog
      show Log g (p.unvisited.erase e.target) _
      rw [htarget]
      exact hlog.opened hholds rfl rfl
  | @referred top below p e rest r hpending hvisited hholds htarget =>
    obtain ⟨htopInOrder, hbelowInOrder⟩ := hin
    have hfollow := htopInOrder.follow hpending
    rw [htarget, hholds.viewOf] at hfollow
    obtain ⟨hposition, hkind⟩ := htopInOrder.edges e (hpending ▸ List.mem_cons_self)
    rw [htarget, hholds.kindOf] at hkind
    refine ⟨⟨hfollow.add ⟨hposition, isTopOn_classic hclassic h hpath⟩, hbelowInOrder⟩,
      [(referenceTo (pathOf (top :: below)) e r).value], ?_, ?_, ?_⟩
    · rw [laidOut, Frame.laid_add, referenceTo, Forest.entries_leaf, ← List.append_assoc]
      rfl
    · simp [ownedIn, openedBy, referenceTo, Tree.leaf]
    · intro log hlog
      exact hlog.referred hholds (by rw [hkind]; rfl) (htarget ▸ hvisited) rfl
  | tookUp hpending hleftover =>
    -- there are no contexts that could take up anything
    obtain ⟨hseated, _⟩ := hs.seated
    have hgathers := (hseated.leftover hleftover).1
    rw [(concept_of_classic h hclassic.1 hclassic.2 hseated.shown.holds).1] at hgathers
    cases hgathers
  | @closed top parent rest p hpending hleftover =>
    obtain ⟨htopInOrder, hparentInOrder, hrestInOrder⟩ := hin
    refine ⟨⟨hparentInOrder.add htopInOrder.plain, hrestInOrder⟩, [], ?_, ?_, ?_⟩
    · rw [laidOut, Frame.laid_add, htopInOrder.entries_close, List.append_nil, ← List.append_assoc]
      rfl
    · simp [ownedIn, openedBy]
    · intro log hlog
      rwa [List.append_nil]

omit hclassic horders hapart in
/-- The root is closed as what was found. -/
theorem turn_finishes (hs : s.Valid g) (hin : AllInOrder g [] s.frames)
    (hturned : turn g rootIri s = .ok (.finished tree p)) :
    Forest.entries [tree] = laidOut s.frames ∧ p = s.progress := by
  obtain ⟨_, hturned', hsteps⟩ := turn_steps rootIri h hs
  rw [hturned] at hturned'
  cases hturned'
  cases hsteps with
  | finished hpending hleftover => exact ⟨hin.1.entries_close, rfl⟩

/-- The turns until the root is closed append all of its tree, and owned nodes for what they open,
in order. -/
theorem run_discovers (hs : s.Valid g) (hin : AllInOrder g [] s.frames)
    (hran : run g rootIri s = .ok (tree, p)) : ∃ more,
      Forest.entries [tree] = laidOut s.frames ++ more ∧
      ownedIn more = (openings g rootIri s).map g.viewOf ∧
      ∀ log, Log g s.progress.unvisited log → Log g p.unvisited (log ++ more) := by
  -- by induction on the turns, of which each appends to what was found before it
  fun_induction run g rootIri s with
  | case1 s d hfailed => cases hran
  | case2 s tree' p' hfinished =>
    cases hran
    obtain ⟨hlaid, rfl⟩ := turn_finishes h hs hin hfinished
    refine ⟨[], by rw [hlaid, List.append_nil], by rw [openings_finished hfinished]; rfl, ?_⟩
    intro log hlog
    rwa [List.append_nil]
  | case3 s later hturned ih =>
    obtain ⟨_, hturned', hsteps⟩ := turn_steps rootIri h hs
    rw [hturned] at hturned'
    cases hturned'
    obtain ⟨hlaterInOrder, first, hlaid, howned, hkept⟩ :=
      turn_discovers hclassic h horders hapart hs hin hturned
    obtain ⟨others, hlaidOthers, hownedOthers, hkeptOthers⟩ :=
      ih (hsteps.valid h hs) hlaterInOrder hran
    refine ⟨first ++ others, ?_, ?_, fun log hlog => ?_⟩
    · rw [hlaidOthers, hlaid, List.append_assoc]
    · rw [openings_next hturned, List.map_append, ← howned, ← hownedOthers]
      simp [ownedIn]
    · rw [← List.append_assoc]
      exact hkeptOthers _ (hkept log hlog)

/-- Growing a tree finds all of its nodes, and owns what it opens, in order. -/
theorem grow_discovers (hp : p.Valid g) (he : Apt g [] e) (hposition : e.position = none)
    (hfresh : e.target ∈ p.unvisited) (hgrown : grow g e p = .ok (tree, p')) :
    tree.value.IsPlain ∧ tree.value.view = g.viewOf e.target ∧
      ownedIn (Forest.entries [tree]) = (openingsFrom g e p).map g.viewOf ∧
      ∀ log, Log g p.unvisited log → Log g p'.unvisited (log ++ Forest.entries [tree]) := by
  have hnoPath : ∀ q ∈ ([] : List Resource), g.Holds q := fun q hq => absurd hq List.not_mem_nil
  have hknown := hp.typed e.target hfresh
  obtain ⟨r, hr, htarget⟩ := ResourceGraph.exists_held h.indexed he.target_lt
  obtain ⟨frame, hplaced, hopened⟩ := exists_opened h hnoPath he hknown
  have hvalid := hopened.valid hp
  rw [← htarget, hr.kindOf] at hknown
  have hsame := place_eq h hnoPath hr hknown he htarget.symm
  rw [hplaced] at hsame
  cases hsame
  -- the frame of the root has no children yet, and its edges are in order
  have hroot : InOrder g [] (openedFrame g [] e r) :=
    openedFrame_inOrder hclassic h horders hapart hnoPath hr hposition
  have hcontexts : g.contextsOn [] = openContexts [] := rfl
  rw [hcontexts] at hplaced
  rw [grow, hplaced] at hgrown
  -- the root comes first, and everything that the turns lay out comes behind it
  obtain ⟨more, hlaid, howned, hkept⟩ :=
    run_discovers hclassic h horders hapart hvalid ⟨hroot, trivial⟩ hgrown
  have hlisted : Forest.entries [tree] = (openedFrame g [] e r).entry :: more := by
    rw [hlaid]
    simp [laidOut, Frame.laid, openedFrame]
  have hvalue : tree.value = (openedFrame g [] e r).entry := by
    rw [Forest.entries_singleton] at hlisted
    exact (List.cons.inj hlisted).1
  refine ⟨hvalue ▸ hroot.plain, ?_, ?_, fun log hlog => ?_⟩
  · rw [hvalue, ← htarget, hr.viewOf]
    rfl
  · rw [hlisted, openingsFrom, hplaced]
    show r.view :: ownedIn more = g.viewOf r.id :: _
    rw [howned, hr.viewOf]
  · have hvisited : Log g (p.unvisited.erase r.id) (log ++ [(openedFrame g [] e r).entry]) :=
      hlog.opened hr rfl rfl
    rw [htarget] at hvisited
    rw [hlisted, List.append_cons]
    exact hkept _ hvisited

/-- Growing trees finds all of their nodes, one tree after the other. -/
theorem growEach_discovers {ids : List ResourceId} {trees : Forest} (hp : p.Valid g)
    (hids : ∀ id ∈ ids, Apt g [] { target := id })
    (hgrown : growEach g ids p = .ok (trees, p')) : (∀ t ∈ trees, t.value.IsPlain) ∧
      (trees.map (·.value.view)).Sublist (ids.map g.viewOf) ∧
      ownedIn (Forest.entries trees) = (openingsOfEach g ids p).map g.viewOf ∧
      ∀ log, Log g p.unvisited log → Log g p'.unvisited (log ++ Forest.entries trees) := by
  -- by induction on the ids; the log of one tree is what the next one starts from
  induction ids generalizing p trees with
  | nil =>
    cases hgrown
    refine ⟨fun t ht => absurd ht List.not_mem_nil, List.Sublist.refl _, ?_, fun log hlog => ?_⟩
    · rw [Forest.entries_nil]
      rfl
    · rwa [Forest.entries_nil, List.append_nil]
  | cons id rest ih =>
    have hrestApt : ∀ id ∈ rest, Apt g [] { target := id } := fun id hid =>
      hids id (List.mem_cons_of_mem _ hid)
    rw [growEach] at hgrown
    split at hgrown
    · next hfresh =>
      split at hgrown
      · cases hgrown
      · next tree q hfirst =>
        split at hgrown
        · cases hgrown
        · next others q' hgrownRest =>
          cases hgrown
          have hapt := hids id List.mem_cons_self
          have hplanted := grow_planted h hp hapt hfresh hfirst
          obtain ⟨hplain, hview, howned, hkept⟩ :=
            grow_discovers hclassic h horders hapart hp hapt rfl hfresh hfirst
          obtain ⟨hplainRest, hviewsRest, hownedRest, hkeptRest⟩ :=
            ih hplanted.valid hrestApt hgrownRest
          have hsplit : Forest.entries (tree :: others) =
            Forest.entries [tree] ++ Forest.entries others := Forest.entries_append [tree] others
          refine ⟨List.forall_mem_cons.2 ⟨hplain, hplainRest⟩, ?_, ?_, fun log hlog => ?_⟩
          · rw [List.map_cons, List.map_cons, hview]
            exact hviewsRest.cons_cons _
          · rw [hsplit, openingsOfEach, if_pos hfresh, hfirst, List.map_append, ← howned,
              ← hownedRest]
            simp [ownedIn]
          · rw [hsplit, ← List.append_assoc]
            exact hkeptRest _ (hkept log hlog)
    · next hvisited =>
      obtain ⟨hplain, hviews, howned, hkept⟩ := ih hp hrestApt hgrown
      refine ⟨hplain, hviews.cons _, ?_, hkept⟩
      rw [openingsOfEach, if_neg hvisited]
      exact howned

omit horders in
/-- Roots are planned in the order in which they are shown. -/
theorem plannedRoots_precedes : ((plannedRoots g).map g.viewOf).Pairwise Precedes := by
  have hschemes : rootSchemes g = [] := List.filter_eq_nil_iff.2 fun r _ => by simp [hclassic.1]
  have hcollections : rootCollections g = [] :=
    List.filter_eq_nil_iff.2 fun r _ => by simp [hclassic.2]
  have hplanned : plannedRoots g = plannedIds (rootConcepts g) := by
    rw [plannedRoots, hschemes, hcollections]
    simp [plannedIds, inDisplayOrder, sortOn]
  have hheld : ∀ r ∈ inDisplayOrder (rootConcepts g), g.Holds r := fun r hr =>
    ResourceGraph.holds_of_mem h.indexed (List.mem_filter.1 (mem_inDisplayOrder.1 hr)).1
  have hviews : (plannedRoots g).map g.viewOf = (inDisplayOrder (rootConcepts g)).map (·.view) := by
    rw [hplanned, plannedIds, List.map_map]
    exact List.map_congr_left fun r hr => (hheld r hr).viewOf
  have hinside : ∀ id ∈ plannedRoots g, id < g.size := fun id hid =>
    (apt_of_mem_roots h.indexed hid).target_lt
  have hiris := hapart.nodup_iris h.indexed (nodup_roots h.indexed) hinside
  rw [hviews, List.map_map] at hiris
  have hnodup : ((inDisplayOrder (rootConcepts g)).map (plainKey ·.view)).Nodup := by
    refine List.Nodup.of_map SiblingKey.iri ?_
    rw [List.map_map]
    exact hiris
  rw [hviews]
  exact List.pairwise_map.2 (ascending_of_sorted (sortOn_pairwise _) hnodup)

/-- Where nothing is left after the roots, their trees are in the order in which they are shown, and
they list what was found. -/
theorem Phases.discovers (ph : Phases g) (hnone : ph.afterCollections.unvisited.toList = []) :
    sortSiblings ph.trees = ph.trees ∧
      Forest.ownedViews ph.trees = (openingOrder g).map g.viewOf ∧
      Log g ph.afterCollections.unvisited (Forest.entries ph.trees) := by
  obtain ⟨hplain, hviews, howned, hkept⟩ := growEach_discovers hclassic h horders hapart
    (start_valid g) (fun _ hid => apt_of_mem_roots h.indexed hid) ph.grown_roots
  rw [ph.trees_eq_ofRoots hnone, Forest.ownedViews_eq, ph.openingOrder_eq h hnone]
  exact ⟨sortSiblings_of_precedes hplain ((plannedRoots_precedes hclassic h hapart).sublist hviews),
    howned, hkept [] .start⟩

end Turns

end Traversal

open Traversal Relation

/-- Without schemes and collections, for all statements in which no two nodes print alike and whose
narrower concepts form no cycle: the owned nodes of the forest are in the order in which the
traversal opened their resources, and the owned node of a resource comes before every reference to
it. -/
theorem discovery_shown (c : Configuration) (hschemes : c.conceptSchemes = false)
    (hcollections : c.collections = false) (triples : List Triple)
    (hapart : PrintApart (triples.flatMap mentioned)) :
    ∃ g f built, (ResourceGraph.new c).ingestAll triples = .ok g ∧ g.finish = .ok f ∧
      build f = .ok built ∧ ((∀ a, ¬ TransGen f.Narrower a a) →
        Forest.ownedViews built.forest = (openingOrder f).map f.viewOf ∧
        ∀ before t after, built.forest.nodes = before ++ t :: after → t.value.reference = true →
          (∃ s ∈ before, s.value.reference = false ∧ s.value.view = t.value.view) ∧
          ∀ s ∈ after, s.value.reference = false → s.value.iri ≠ t.value.iri) := by
  obtain ⟨g, htaken, hsound, _, hopen, _⟩ :=
    ResourceGraph.exists_ingestAll triples (Sound.new c) rfl
  have hfinished := ResourceGraph.finish_eq hopen
  have horders := (((Reachable.new c).ingestAll htaken).finish hfinished).ordersExact
  have hsoundFinished := ResourceGraph.sound_completed hsound
  have hapart' := ResourceGraph.printsApart_completed htaken hapart
  have hconfiguration : g.completed.configuration = c :=
    ResourceGraph.configuration_completed.trans (ResourceGraph.ingestAll_keeps htaken).1
  have hclassic : g.completed.IsClassic := by
    rw [ResourceGraph.IsClassic, hconfiguration]
    exact ⟨hschemes, hcollections⟩
  obtain ⟨ph⟩ := exists_phases hsoundFinished
  refine ⟨g, g.completed, _, htaken, hfinished, ph.build_eq hsoundFinished, fun hacyclic => ?_⟩
  -- without cycles every concept is below a root, and none is left to be promoted
  have hnone := ph.nothing_left hsoundFinished horders ((hclassic.acyclic_iff hsoundFinished).2
    ((ResourceGraph.isAcyclic_iff hsoundFinished).2 hacyclic)) (.inr hclassic.2)
  obtain ⟨hsorted, hopened, hlog⟩ := ph.discovers hclassic hsoundFinished horders hapart' hnone
  rw [hsorted]
  exact ⟨hopened, fun _ _ _ hsplit hhref =>
    hlog.owned_before (ph.nodup_iris hsoundFinished hapart') hsplit hhref⟩

/-- Statements about a concept that is narrower than two others. These are shown in the order of
their IRIs, and not in the one in which they were stated. -/
def diamondStatements : List Triple := [
  ⟨.iri "urn:a", "http://www.w3.org/2004/02/skos/core#narrower", .node (.iri "urn:c")⟩,
  ⟨.iri "urn:a", "http://www.w3.org/2004/02/skos/core#narrower", .node (.iri "urn:b")⟩,
  ⟨.iri "urn:c", "http://www.w3.org/2004/02/skos/core#narrower", .node (.iri "urn:d")⟩,
  ⟨.iri "urn:b", "http://www.w3.org/2004/02/skos/core#narrower", .node (.iri "urn:d")⟩]

/-- The graph of these statements. -/
def diamondHierarchy : ResourceGraph where
  configuration := {}
  resources := #[
    { id := 0, node := .iri "urn:a", kind := .concept,
      links := { narrower := .ofList [1, 2] } },
    { id := 1, node := .iri "urn:c", kind := .concept,
      links := { broader := .ofList [0], narrower := .ofList [3] } },
    { id := 2, node := .iri "urn:b", kind := .concept,
      links := { broader := .ofList [0], narrower := .ofList [3] } },
    { id := 3, node := .iri "urn:d", kind := .concept,
      links := { broader := .ofList [1, 2] } }]
  index := ⟨[(.iri "urn:a", 0), (.iri "urn:c", 1), (.iri "urn:b", 2), (.iri "urn:d", 3)]⟩
  counters := { triples := 4 }

theorem discovery_shown_diamond : PrintApart (diamondStatements.flatMap mentioned) ∧
    ∃ f built, ((ResourceGraph.new {}).ingestAll diamondStatements).bind (·.finish) = .ok f ∧
      f.isAcyclic = true ∧ build f = .ok built ∧
      Forest.ownedViews built.forest = (openingOrder f).map f.viewOf ∧
      built.forest.nodes.map (fun t => (t.value.iri, t.value.reference)) =
        [("urn:a", false), ("urn:b", false), ("urn:d", false), ("urn:c", false), ("urn:d", true)] ∧
      ∀ before t after, built.forest.nodes = before ++ t :: after → t.value.reference = true →
        (∃ s ∈ before, s.value.reference = false ∧ s.value.view = t.value.view) ∧
        ∀ s ∈ after, s.value.reference = false → s.value.iri ≠ t.value.iri := by
  have hapart : PrintApart (diamondStatements.flatMap mentioned) := by decide
  obtain ⟨g, f, built, htaken, hfinished, hgrown, hshown⟩ :=
    discovery_shown {} rfl rfl diamondStatements hapart
  have hknown : (ResourceGraph.new {}).ingestAll diamondStatements = .ok diamondHierarchy := by
    decide +kernel
  obtain rfl : diamondHierarchy = g := Except.ok.inj (hknown.symm.trans htaken)
  have hwhole : diamondHierarchy.finish = .ok { diamondHierarchy with frozen := true } := by
    decide +kernel
  obtain rfl := Except.ok.inj (hwhole.symm.trans hfinished)
  have hacyclic : ({ diamondHierarchy with frozen := true } : ResourceGraph).isAcyclic = true := by
    decide +kernel
  have hsound := (((Reachable.new _).ingestAll htaken).finish hfinished).sound
  obtain ⟨howned, hbefore⟩ := hshown ((ResourceGraph.isAcyclic_iff hsound).1 hacyclic)
  have hnodes : (build { diamondHierarchy with frozen := true }).map (fun b =>
      b.forest.nodes.map fun t => (t.value.iri, t.value.reference)) = .ok
        [("urn:a", false), ("urn:b", false), ("urn:d", false), ("urn:c", false),
          ("urn:d", true)] := by
    cbv
  rw [hgrown] at hnodes
  refine ⟨hapart, _, built, ?_, hacyclic, hgrown, howned, Except.ok.inj hnodes, hbefore⟩
  rw [htaken]
  exact hfinished

end Thesaurus
