import Thesaurus.Proofs.Forest.BackEdges
import Thesaurus.Proofs.Forest.Distinct
import Thesaurus.Proofs.Transform

/-!
# References and flags

A reference is made when an edge leads to a resource that was visited before, and nothing is lost
when siblings are sorted. So the references of a finished forest can be counted while it is built.

- `Tree.lineage`: the nodes of a tree, each with the values above it.
- `Forest.tally`: how many nodes pass a test of what they show and of what is above them.
- `Forest.cyclicReferenceCount`: the references below the node that owns their resource.
- `Traversal.Counts`: what has to be shown of a number that is kept along with the progress.
- `Traversal.Phases.counted`: the number in the end is a tally of the forest.
- `references_resolve`: what references point at, and what the flags and issues say about them.
-/

namespace Thesaurus

open Rdf (Triple)

/-! ## Counting nodes -/

namespace Tree

variable {α : Type}

mutual

/-- The nodes of a tree, parents first, each with the values above it, the innermost first. -/
def lineage (above : List α) : Tree α → List (List α × Tree α)
  | node v cs => (above, node v cs) :: lineageAll (v :: above) cs

/-- The nodes of a list of trees, one tree after the other. -/
def lineageAll (above : List α) : List (Tree α) → List (List α × Tree α)
  | [] => []
  | t :: rest => t.lineage above ++ lineageAll above rest

end

theorem lineageAll_eq_flatMap (above : List α) (ts : List (Tree α)) :
    lineageAll above ts = ts.flatMap (lineage above) := by
  induction ts with
  | nil => rfl
  | cons t rest ih => rw [lineageAll, ih, List.flatMap_cons]

theorem lineageAll_cons (above : List α) (t : Tree α) (ts : List (Tree α)) :
    lineageAll above (t :: ts) =
      (above, t) :: (lineageAll (t.value :: above) t.children ++ lineageAll above ts) := by
  cases t
  rw [lineageAll, lineage]
  rfl

mutual

/-- The nodes are those of the pre-order. -/
theorem map_lineage (above : List α) : ∀ t : Tree α, (t.lineage above).map (·.2) = walk [t]
  | node v cs => by
    rw [lineage, List.map_cons, map_lineageAll (v :: above) cs, walk, List.append_nil]

theorem map_lineageAll (above : List α) : ∀ ts : List (Tree α),
    (lineageAll above ts).map (·.2) = walk ts
  | [] => by rw [lineageAll, List.map_nil, walk]
  | t :: rest => by
    rw [lineageAll, List.map_append, map_lineage above t, map_lineageAll above rest,
      ← walk_append, List.singleton_append]

end

end Tree

namespace Forest

variable {test : List Entry → Entry → Bool} {above : List Entry} {f f' : Forest} {e : Entry}

/-- How many nodes pass a test of what is above them and of what they show. -/
def tally (test : List Entry → Entry → Bool) (above : List Entry) (f : Forest) : Nat :=
  (Tree.lineageAll above f).countP fun (above, t) => test above t.value

/-- Whether a node is a reference below the node that owns its resource. -/
def closesCycle (above : List Entry) (e : Entry) : Bool :=
  e.reference && above.any fun a => !a.reference && a.iri == e.iri

/-- The number of references below the node that owns their resource. -/
def cyclicReferenceCount (f : Forest) : Nat :=
  f.tally closesCycle []

/-- The references are counted by a test that does not look up. -/
theorem tally_references : f.tally (fun _ e => e.reference) [] = f.referenceCount := by
  rw [tally, referenceCount, nodes, ← Tree.map_lineageAll [] f, List.countP_map]
  rfl

@[simp] theorem tally_nil : tally test above [] = 0 :=
  rfl

theorem tally_append : tally test above (f ++ f') = tally test above f + tally test above f' := by
  rw [tally, Tree.lineageAll_eq_flatMap, List.flatMap_append, List.countP_append,
    ← Tree.lineageAll_eq_flatMap, ← Tree.lineageAll_eq_flatMap]
  rfl

/-- A node counts itself, if it passes the test, and what is below it. -/
theorem tally_cons (t : Tree Entry) (f : Forest) : tally test above (t :: f) =
    (if test above t.value then 1 else 0) +
      (tally test (t.value :: above) t.children + tally test above f) := by
  rw [tally, Tree.lineageAll_cons, List.countP_cons, List.countP_append, Nat.add_comm]
  rfl

/-- Counts do not depend on the order of the trees. -/
theorem tally_perm (h : f.Perm f') : tally test above f = tally test above f' := by
  rw [tally, tally, Tree.lineageAll_eq_flatMap, Tree.lineageAll_eq_flatMap]
  exact (h.flatMap_right _).countP_eq _

end Forest

namespace Traversal

variable {g : ResourceGraph} {test : List Entry → Entry → Bool} {R : Nat → Progress → Prop}
  {frames below : List Frame} {top : Frame} {p later : Progress} {s next : Stage} {e : Edge}
  {r : Resource} {tree : Tree Entry} {n : Nat}

/-! ## Counting while a tree grows -/

/-- How many nodes pass a test among the children so far of the open resources. -/
def openTally (test : List Entry → Entry → Bool) : List Frame → Nat
  | [] => 0
  | f :: below => Forest.tally test ((f :: below).map (·.entry)) f.done + openTally test below

/-- What has to be shown of a test that only references pass, to keep a relation between the number
of nodes that pass it and the progress: it holds at the start, and visiting a resource or referring
to one keeps it. -/
structure Counts (g : ResourceGraph) (test : List Entry → Entry → Bool)
    (R : Nat → Progress → Prop) : Prop where
  owned : ∀ above e, e.reference = false → test above e = false
  start : R 0 { unvisited := typedIds g }
  visit : ∀ n p id, R n p → R n (p.visit id)
  refer : ∀ n top below p e r, AllSeated g (top :: below) → g.Holds r → e.target = r.id → R n p →
    R (n + if test ((top :: below).map (·.entry))
          (referenceTo (pathOf (top :: below)) e r).value then 1 else 0)
      (p.refer top.resource r (isOpen (top :: below) e.target))

/-- Closing a frame that owns its node counts what its children count. -/
theorem tally_close (above : List Entry) (h : Counts g test R) (hapart : g.PrintsApart)
    (hg : Indexed g) {path : List Resource} {placing : List ResourceId} {unvisited : IdSet}
    (hf : Seated g path top) (hdistinct : Distinct g unvisited placing top) :
    Forest.tally test above [top.close] = Forest.tally test (top.entry :: above) top.done := by
  have hkept := (hdistinct.showApart.perm hg hapart).trans (List.reverse_perm _)
  have hownedNode : test above top.close.value = false := h.owned _ _ hf.owned
  rw [Forest.tally_cons, hownedNode, Forest.tally_nil]
  show 0 + (Forest.tally test (top.entry :: above) (sortSiblings top.done.reverse) + 0) = _
  rw [Nat.zero_add, Nat.add_zero, Forest.tally_perm hkept]

/-- Every turn keeps the relation. -/
theorem Steps.counted (h : Counts g test R) (hapart : g.PrintsApart) (hg : Indexed g)
    (hs : s.Valid g) (hdistinct : AllDistinct g s.progress.unvisited [] s.frames)
    (hR : R (n + openTally test s.frames) s.progress) (hstep : Steps g s (.next next)) :
    R (n + openTally test next.frames) next.progress := by
  cases hstep with
  | @opened top frame below p e later hpending hfresh hopened =>
    have hsame : openTally test (frame :: top.leaving later :: below) =
        openTally test (top :: below) := by
      show Forest.tally test _ frame.done + openTally test (top :: below) = _
      rw [hopened.done_eq, Forest.tally_nil, Nat.zero_add]
    show R (n + openTally test (frame :: top.leaving later :: below)) _
    rw [hsame]
    exact h.visit _ _ _ hR
  | @referred top below p e later r hpending hvisited hholds htarget =>
    have hcounted := h.refer _ top below p e r hs.seated hholds htarget hR
    -- the new reference is a leaf, and counts by itself
    have hadded : n + openTally test
        ((top.leaving later).add (referenceTo (pathOf (top :: below)) e r) :: below) =
        n + openTally test (top :: below) +
          if test ((top :: below).map (·.entry))
            (referenceTo (pathOf (top :: below)) e r).value then 1 else 0 := by
      show n + (Forest.tally test _ (referenceTo (pathOf (top :: below)) e r :: top.done) + _) =
        n + (Forest.tally test ((top :: below).map (·.entry)) top.done + _) + _
      rw [Forest.tally_cons]
      have hleaf : (referenceTo (pathOf (top :: below)) e r).children = [] := rfl
      rw [hleaf, Forest.tally_nil]
      show n + ((if test ((top :: below).map (·.entry)) _ then 1 else 0) +
        (0 + Forest.tally test ((top :: below).map (·.entry)) top.done) + _) = _
      omega
    show R (n + openTally test
      ((top.leaving later).add (referenceTo (pathOf (top :: below)) e r) :: below)) _
    rw [hadded]
    exact hcounted
  | tookUp => exact hR
  | @closed top parent rest p hpending hleftover =>
    -- closing sorts the children, and as many of them count as before
    have hclosed := tally_close ((parent :: rest).map (·.entry)) h hapart hg hs.seated.1
      hdistinct.1
    have hsame : openTally test (parent.add top.close :: rest) =
        openTally test (top :: parent :: rest) := by
      show Forest.tally test ((parent :: rest).map (·.entry)) ([top.close] ++ parent.done) +
          openTally test rest =
        Forest.tally test (top.entry :: (parent :: rest).map (·.entry)) top.done +
          (Forest.tally test ((parent :: rest).map (·.entry)) parent.done + openTally test rest)
      rw [Forest.tally_append, hclosed, Nat.add_assoc]
    show R (n + openTally test (parent.add top.close :: rest)) _
    rw [hsame]
    exact hR

/-- What was counted before a tree grew, and what the tree counts, is related to the progress
after it. -/
theorem grow_counted (h : Counts g test R) (hg : Sound g) (horders : g.OrdersExact)
    (hapart : g.PrintsApart) (hp : p.Valid g) (he : Apt g [] e) (hfresh : e.target ∈ p.unvisited)
    (hR : R n p) (hgrown : grow g e p = .ok (tree, later)) :
    R (n + Forest.tally test [] [tree]) later := by
  refine grow_keeps
    (I := fun s => AllDistinct g s.progress.unvisited [] s.frames ∧
      R (n + openTally test s.frames) s.progress)
    (Q := fun tree later => R (n + Forest.tally test [] [tree]) later) hg hp he hfresh ?_ ?_ ?_
      hgrown
  · intro frame hopened
    refine ⟨⟨hopened.distinct horders, trivial⟩, ?_⟩
    show R (n + (Forest.tally test [frame.entry] frame.done + 0)) _
    rw [hopened.done_eq]
    exact h.visit _ _ _ hR
  · rintro s next hvalid ⟨hdistinct, hcounted⟩ hstep
    exact ⟨hstep.distinct horders hvalid hdistinct,
      hstep.counted h hapart hg.indexed hvalid hdistinct hcounted⟩
  · rintro s tree later hvalid ⟨hdistinct, hcounted⟩ hstep
    cases hstep with
    | @finished top _ hpending hleftover =>
      rw [tally_close [] h hapart hg.indexed hvalid.seated.1 hdistinct.1]
      exact hcounted

/-- In the end the relation holds of what the sorted trees count. -/
theorem Phases.counted (ph : Phases g) (h : Counts g test R) (hg : Sound g)
    (horders : g.OrdersExact) (hapart : g.PrintsApart) :
    R (Forest.tally test [] (sortSiblings ph.trees)) ph.atEnd := by
  rw [Forest.tally_perm (ph.sorted_perm hg hapart)]
  refine ph.rule (J := fun trees p => R (Forest.tally test [] trees) p) hg h.start ?_
  intro id done p tree later hp hapt hfresh hR hgrown
  rw [Forest.tally_append]
  exact grow_counted h hg horders hapart hp hapt hfresh hR hgrown

/-! ## The two counts -/

/-- No reference was made just as long as the flag is not taken away. -/
theorem counts_references (g : ResourceGraph) :
    Counts g (fun _ e => e.reference) fun n p => p.onlyTreeEdges = true ↔ n = 0 where
  owned := fun _ _ howned => howned
  start := ⟨fun _ => rfl, fun _ => rfl⟩
  visit := fun _ _ _ hbefore => hbefore
  refer := by
    intro n top below p e r _ _ _ _
    show (false = true) ↔ n + 1 = 0
    simp

/-- A reference is below the node of its resource just if the resource is open. -/
theorem closesCycle_referenceTo (hapart : g.PrintsApart) (hg : Indexed g)
    (hs : AllSeated g frames) (hr : g.Holds r) (htarget : e.target = r.id)
    (path : List Resource) :
    Forest.closesCycle (frames.map (·.entry)) (referenceTo path e r).value =
      isOpen frames e.target := by
  show ((frames.map (·.entry)).any fun a => !a.reference && a.iri == r.view.iri) = _
  rw [isOpen, List.any_map]
  induction frames with
  | nil => rfl
  | cons f below ih =>
    obtain ⟨hseated, hrest⟩ := hs
    have hsameResource : (f.entry.iri == r.view.iri) = (f.resource.id == e.target) := by
      rw [Entry.iri, hseated.shown.view_eq, htarget, Bool.eq_iff_iff, beq_iff_eq, beq_iff_eq]
      refine ⟨fun hiri => ?_, fun hsame => ?_⟩
      · refine hapart.eq_of_iri hg hseated.shown.holds.lt_size hr.lt_size ?_
        rw [hseated.shown.holds.viewOf, hr.viewOf, hiri]
      · rw [hseated.shown.holds.eq hr hsame]
    rw [List.any_cons, List.any_cons, ih hrest, Function.comp_apply, hseated.owned, hsameResource]
    rfl

/-- One issue is recorded for each reference below the node of its resource, and then the flag is
raised. -/
theorem counts_cycles (hapart : g.PrintsApart) (hg : Indexed g) :
    Counts g Forest.closesCycle fun n p =>
      p.issues.countP (·.kind == .hierarchyCycle) = n ∧ (p.cycle = true ↔ 0 < n) where
  owned := fun above e howned => by rw [Forest.closesCycle, howned, Bool.false_and]
  start := ⟨rfl, by simp⟩
  visit := fun _ _ _ hbefore => hbefore
  refer := by
    rintro n top below p e r hseated hholds htarget ⟨hissues, hflag⟩
    rw [closesCycle_referenceTo hapart hg hseated hholds htarget]
    by_cases hcloses : isOpen (top :: below) e.target = true
    · rw [hcloses, if_pos rfl]
      refine ⟨?_, ?_⟩
      · show (p.issues ++ [Issue.hierarchyCycle r.node top.resource.node]).countP _ = n + 1
        rw [List.countP_append, hissues]
        rfl
      · simp [Progress.refer]
    · rw [if_neg hcloses, Progress.refer, if_neg hcloses]
      refine ⟨hissues, ?_⟩
      simpa [hcloses] using hflag

/-! ## What references point at -/

/-- Whatever is shown below a resource of a finished graph has a kind. -/
theorem isKnown_of_allowsBelow {parent : Resource} (h : Sound g) (hmembers : g.MembersFit)
    (hparent : g.Holds parent) (hr : g.Holds r) (hled : g.AllowsBelow parent r.id) :
    r.kind.isKnown = true := by
  by_cases hconcept : r.kind = .concept
  · rw [hconcept]
    rfl
  · have hmember := (hled.member h hparent hr hconcept).2
    rw [← hparent.linksOf] at hmember
    rcases hmembers parent.id r.id hmember with hkind | hkind
    · exact absurd (hr.kindOf.symm.trans hkind) hconcept
    · rw [hr.kindOf] at hkind
      exact Kind.isKnown_of_isCollection hkind

/-- A reference points at a resource of known kind. -/
theorem Phases.exists_known (ph : Phases g) (h : Sound g) (hmembers : g.MembersFit)
    {t : Tree Entry} (ht : t ∈ Forest.nodes (sortSiblings ph.trees))
    (hhref : t.value.reference = true) :
    ∃ r, g.Holds r ∧ r.kind.isKnown = true ∧ t.value.view = r.view := by
  obtain ⟨above, hsituated⟩ := Tree.exists_situated ht
  obtain ⟨path, hshows, htrail, hplaced⟩ := Placed.situated_trail
    (fun t ht => ph.planted.placed t (mem_of_mem_sortSiblings ht)) hsituated
  obtain ⟨r, hshown⟩ := hplaced.shown
  cases path with
  | nil =>
    -- all roots are owned
    rw [hshows.eq_nil] at hsituated
    have howned := ph.owned t (mem_of_mem_sortSiblings (mem_of_situated_nil hsituated))
    rw [hhref] at howned
    cases howned
  | cons parent rest =>
    have hknown := isKnown_of_allowsBelow h hmembers (htrail.holds parent List.mem_cons_self)
      hshown.holds (hshown.led parent rfl)
    exact ⟨r, hshown.holds, hknown, hshown.view_eq⟩

/-- Of elements with different keys, one has the key of a given one. -/
theorem filter_key_eq {α κ : Type} [DecidableEq κ] {key : α → κ} {l : List α} {a : α}
    (hnodup : (l.map key).Nodup) (ha : a ∈ l) : l.filter (key · == key a) = [a] := by
  refine List.perm_singleton.1 ((List.perm_ext_iff_of_nodup
    ((List.Nodup.of_map key hnodup).filter _) (List.nodup_singleton a)).2 fun b => ?_)
  rw [List.mem_filter, List.mem_singleton, beq_iff_eq]
  refine ⟨fun ⟨hb, hsame⟩ => List.inj_on_of_nodup_map hnodup hb ha hsame, ?_⟩
  rintro rfl
  exact ⟨ha, rfl⟩

/-- What has a kind is owned once, with its view. -/
theorem Phases.owned_once (ph : Phases g) (h : Sound g) (hapart : g.PrintsApart) (hr : g.Holds r)
    (hknown : r.kind.isKnown = true) :
    (Forest.ownedViews (sortSiblings ph.trees)).filter (·.iri == r.view.iri) = [r.view] := by
  have hcovered := (Forest.ownedViews_perm (ph.sorted_perm h hapart)).trans (ph.covered hapart)
  have hiris := (hcovered.map (·.iri)).nodup_iff.2 (nodup_knownViews h hapart)
  have hmem : r.view ∈ Forest.ownedViews (sortSiblings ph.trees) := by
    refine hcovered.mem_iff.2 (List.mem_map_of_mem (List.mem_filter.2 ⟨?_, hknown⟩))
    exact ResourceGraph.mem_resources_iff.2 ⟨r.id, hr⟩
  exact filter_key_eq hiris hmem

end Traversal

open Traversal

/-- In the forest of the finished graph of some statements, in which no two nodes print alike, every
reference points at a resource that is owned once and shown alike there. The flags say whether there
are references, and whether some are below the node of their resource; each of those is an issue. -/
theorem references_resolve (c : Configuration) (triples : List Triple)
    (hapart : PrintApart (triples.flatMap mentioned)) :
    ∃ g f built, (ResourceGraph.new c).ingestAll triples = .ok g ∧ g.finish = .ok f ∧
      build f = .ok built ∧
      (∀ t ∈ built.forest.nodes, t.value.reference = true →
        (Forest.ownedViews built.forest).filter (·.iri == t.value.iri) = [t.value.view]) ∧
      (built.onlyTreeEdges = true ↔ built.forest.referenceCount = 0) ∧
      built.issues.countP (·.kind == .hierarchyCycle) = built.forest.cyclicReferenceCount ∧
      (built.cycle = true ↔ 0 < built.forest.cyclicReferenceCount) := by
  obtain ⟨g, htaken, hsound, _, hopen, _⟩ :=
    ResourceGraph.exists_ingestAll triples (Sound.new c) rfl
  have hfinished := ResourceGraph.finish_eq hopen
  have horders := (((Reachable.new c).ingestAll htaken).finish hfinished).ordersExact
  have hsoundFinished := ResourceGraph.sound_completed hsound
  have hapart' := ResourceGraph.printsApart_completed htaken hapart
  -- all that is said of the built forest is read off its phases
  obtain ⟨ph⟩ := exists_phases hsoundFinished
  refine ⟨g, g.completed, _, htaken, hfinished, ph.build_eq hsoundFinished, ?_, ?_, ?_⟩
  · intro t ht hhref
    obtain ⟨r, hholds, hknown, hview⟩ :=
      ph.exists_known hsoundFinished (ResourceGraph.membersFit_completed hsound) ht hhref
    rw [Entry.iri, hview]
    exact ph.owned_once hsoundFinished hapart' hholds hknown
  · have hcounted := ph.counted (counts_references g.completed) hsoundFinished horders hapart'
    rwa [Forest.tally_references] at hcounted
  · exact ph.counted (counts_cycles hapart' hsoundFinished.indexed) hsoundFinished horders hapart'

theorem references_resolve_mutual : PrintApart (mutualStatements.flatMap mentioned) ∧
    ∃ g f built, (ResourceGraph.new {}).ingestAll mutualStatements = .ok g ∧ g.finish = .ok f ∧
      build f = .ok built ∧
      ∀ t ∈ built.forest.nodes, t.value.reference = true →
        (Forest.ownedViews built.forest).filter (·.iri == t.value.iri) = [t.value.view] := by
  have hapart : PrintApart (mutualStatements.flatMap mentioned) := by decide
  obtain ⟨g, f, built, htaken, hfinished, hgrown, hresolved, _⟩ :=
    references_resolve {} mutualStatements hapart
  exact ⟨hapart, g, f, built, htaken, hfinished, hgrown, hresolved⟩

end Thesaurus
