import Thesaurus.Proofs.Forest.Exploration

/-!
# Cycles, and the references that close them

The flag for cycles is raised when a reference leads to something that is open. Where neither
schemes nor collections are considered, everything narrower is followed, so that no cycle is missed,
and the references that close cycles stay in the forest.

- `Progress.Flagged`, `Phases.flagged`: the flag is raised for cycles only, and for every edge back
  that is reported.
- `Phases.exists_reported`: every cycle of narrower concepts holds an edge back that is reported.
- `Cites`, `Phases.cited`: every edge back that is reported is shown in the forest.
- `Forest.BackEdge`, `Forest.MarksCycles`, `cycles_found`: the references to something above them
  mark the groups of concepts on cycles.
-/

namespace Thesaurus

open Relation (ReflTransGen TransGen)

namespace ResourceGraph

variable {g : ResourceGraph} {r : Resource} {id : ResourceId}

/-- Whether neither schemes nor collections are considered. -/
def IsClassic (g : ResourceGraph) : Prop :=
  g.configuration.conceptSchemes = false ∧ g.configuration.collections = false

/-- Nothing but concepts is of known kind. -/
theorem IsClassic.concept (hclassic : g.IsClassic) (h : Sound g) (hr : g.Holds r)
    (hknown : r.kind.isKnown = true) : r.kind = .concept :=
  (Traversal.concept_of_classic h hclassic.1 hclassic.2 hr).2 hknown

theorem IsClassic.shownOutside (hclassic : g.IsClassic) (id : ResourceId) :
    g.shownOutside id = true := by
  simp [ResourceGraph.shownOutside, hclassic.1]

/-- There are no collections that could lie on a cycle. -/
theorem IsClassic.acyclic_iff (hclassic : g.IsClassic) (h : Sound g) :
    g.Acyclic ↔ g.isAcyclic = true := by
  rw [isAcyclic_iff h]
  refine ⟨fun hacyclic => hacyclic.1, fun hacyclic => ⟨hacyclic, fun k hcycle => ?_⟩⟩
  obtain ⟨m, ⟨hmember, _⟩, _⟩ := TransGen.head'_iff.1 hcycle
  have hcollection := h.linked.collection_kind k m hmember
  have hconsidered := h.considered k
  cases hkind : g.kindOf k <;>
    simp_all [IsClassic, Kind.isCollection, Configuration.considersKind]

end ResourceGraph

namespace Traversal

variable {g : ResourceGraph} {p later : Progress} {frames : List Frame} {f : Frame}
  {s next : Stage} {e : Edge} {tree : Tree Entry} {trees more done : Forest} {above : List Entry}
  {parent target : Resource} {a b : ResourceId}

/-! ## The flag -/

/-- What the flag for cycles says: it is raised for cycles only, and whenever an issue is found. -/
structure Progress.Flagged (g : ResourceGraph) (p : Progress) : Prop where
  cyclic : p.cycle = true → ¬ g.Acyclic
  raised : p.issues ≠ [] → p.cycle = true

theorem Progress.Flagged.refer {closes : Bool} (hp : p.Flagged g)
    (hcloses : closes = true → ¬ g.Acyclic) : (p.refer parent target closes).Flagged g := by
  cases closes with
  | false =>
    refine ⟨fun hraised => hp.cyclic ?_, fun hfound => ?_⟩
    · exact (Bool.or_false p.cycle).symm.trans hraised
    · exact (Bool.or_false p.cycle).trans (hp.raised hfound)
  | true => exact ⟨fun _ => hcloses rfl, fun _ => Bool.or_true p.cycle⟩

/-- Every turn keeps to the flag, since what is open is above what refers to it. -/
theorem Steps.flagged (h : Sound g) (hs : s.Valid g) (hp : s.progress.Flagged g)
    (hstep : Steps g s (.next next)) : next.progress.Flagged g := by
  cases hstep with
  | opened => exact ⟨hp.cyclic, hp.raised⟩
  | @referred top below p e later r hpending hvisited hholds htarget =>
    refine hp.refer fun hcloses hacyclic => ?_
    obtain ⟨q, hq, hsame⟩ := isOpen_iff.1 hcloses
    have htrail := hs.seated.trail
    have hapt := hs.seated.1.pending_apt e (hpending ▸ List.mem_cons_self)
    obtain rfl := (htrail.holds q hq).eq hholds (hsame.trans htarget)
    exact hacyclic.not_mem h ⟨hapt.fits hholds htarget, htrail⟩ hq
  | tookUp => exact hp
  | closed => exact hp

theorem grow_flagged (h : Sound g) (hp : p.Valid g) (he : Apt g [] e)
    (hfresh : e.target ∈ p.unvisited) (hflagged : p.Flagged g)
    (hgrown : grow g e p = .ok (tree, later)) : later.Flagged g := by
  refine grow_keeps (I := fun s => s.progress.Flagged g) (Q := fun _ later => later.Flagged g)
    h hp he hfresh ?_ ?_ ?_ hgrown
  · exact fun _ _ => ⟨hflagged.cyclic, hflagged.raised⟩
  · exact fun s next hvalid hflagged' hstep => hstep.flagged h hvalid hflagged'
  · intro s tree later _ hflagged' hstep
    cases hstep with
    | finished => exact hflagged'

/-- In the end the flag is raised for cycles only, and for whatever was reported. -/
theorem Phases.flagged (ph : Phases g) (h : Sound g) : ph.atEnd.Flagged g := by
  have hstart : Progress.Flagged g { unvisited := typedIds g } :=
    ⟨Bool.noConfusion, fun hfound => absurd rfl hfound⟩
  refine ph.rule (J := fun _ p => p.Flagged g) h hstart ?_
  intro id done p tree later hp hapt hfresh hflagged hgrown
  exact grow_flagged h hp hapt hfresh hflagged hgrown

theorem Reported.ne_nil (h : Reported g p a b) : p.issues ≠ [] := by
  obtain ⟨_, _, _, _, _, _, hmem⟩ := h
  exact List.ne_nil_of_mem hmem

/-! ## Cycles without schemes and collections -/

/-- Everything narrower is followed, so that every cycle holds an edge back. -/
theorem Phases.exists_reported (ph : Phases g) (h : Sound g) (hclassic : g.IsClassic)
    (hcycle : TransGen g.Narrower a a) : ∃ x y, ReflTransGen g.Narrower a x ∧ g.Narrower x y ∧
      Reported g ph.atEnd x y ∧ ReflTransGen g.Narrower y a := by
  obtain ⟨order, hexplored⟩ := ph.explored (explores_outside h) h fun r hr hknown _ =>
    ⟨hclassic.concept h hr hknown, hclassic.shownOutside r.id⟩
  have hlisted : a ∈ order := by
    obtain ⟨b, hnarrower, _⟩ := TransGen.head'_iff.1 hcycle
    have hknown : (g.kindOf a).isKnown = true := by
      rw [(h.linked.narrower_kinds a b hnarrower).1]
      rfl
    rcases hexplored.found a hknown (ph.visited_atEnd a) with hclosed | ⟨_, hq, _⟩
    · exact hclosed
    · cases hq
  have hfollowed : TransGen (fun a b => g.Narrower a b ∧ g.shownOutside b = true) a a :=
    TransGen.mono (fun _ y hxy => ⟨hxy, hclassic.shownOutside y⟩) a a hcycle
  obtain ⟨x, y, hdown, hedge, hback, hup⟩ := hexplored.ordered.exists_back hlisted hfollowed
  exact ⟨x, y, ReflTransGen.mono (fun _ _ => And.left) a x hdown, hedge.1, hback,
    ReflTransGen.mono (fun _ _ => And.left) y a hup⟩

/-! ## Edges back stay in the forest -/

/-- Whether trees with some nodes above them hold a reference from one resource to another that is
shown above it. -/
def Cites (g : ResourceGraph) (above : List Entry) (trees : Forest) (a b : ResourceId) : Prop :=
  ∃ inner parent rest t, Tree.Situated trees inner t ∧ inner ++ above = parent :: rest ∧
    parent.view = g.viewOf a ∧ t.value.reference = true ∧ t.value.view = g.viewOf b ∧
    g.viewOf b ∈ (parent :: rest).map (·.view)

theorem Cites.mono (h : Cites g above trees a b) (hsub : ∀ t ∈ trees, t ∈ more) :
    Cites g above more a b := by
  obtain ⟨inner, parent, rest, t, hsituated, hcited⟩ := h
  exact ⟨inner, parent, rest, t, hsituated.mono hsub, hcited⟩

/-- What the children of a frame hold is held by the tree that it leaves. -/
theorem Cites.close (h : Cites g (f.entry :: above) f.done a b)
    (hkept : ∀ t ∈ f.done, t ∈ f.close.children) : Cites g above [f.close] a b := by
  obtain ⟨inner, parent, rest, t, hsituated, hpath, hcited⟩ := h
  refine ⟨inner ++ [f.entry], parent, rest, t, ?_, ?_, hcited⟩
  · exact (hsituated.mono hkept).under (List.mem_singleton_self f.close)
  · rwa [List.append_assoc]

/-- Whether the children of some open resource hold such a reference. -/
def CitedIn (g : ResourceGraph) (a b : ResourceId) : List Frame → Prop
  | [] => False
  | f :: below => Cites g ((f :: below).map (·.entry)) f.done a b ∨ CitedIn g a b below

/-- The nodes of the open resources show them. -/
theorem AllSeated.map_view (h : AllSeated g frames) :
    frames.map (·.entry.view) = (pathOf frames).map (·.view) := by
  induction frames with
  | nil => rfl
  | cons f below ih =>
    show f.entry.view :: _ = f.resource.view :: _
    rw [h.1.shown.view_eq, ih h.2]
    rfl

/-- A reference to something open is held once it is made. -/
theorem cites_referenceTo {top : Frame} {below : List Frame} {r : Resource}
    (hs : AllSeated g (top :: below)) (hr : g.Holds r) (hopen : ∃ q ∈ pathOf (top :: below), q = r)
    (done : Forest) : Cites g ((top :: below).map (·.entry))
      (referenceTo (pathOf (top :: below)) e r :: done) top.resource.id r.id := by
  obtain ⟨q, hq, rfl⟩ := hopen
  refine ⟨[], top.entry, below.map (·.entry), _, .root List.mem_cons_self, rfl, ?_, rfl,
    hr.viewOf.symm, ?_⟩
  · rw [hs.1.shown.view_eq, hs.1.shown.holds.viewOf]
  · rw [hr.viewOf]
    have hshown : q.view ∈ (top :: below).map (·.entry.view) := by
      rw [hs.map_view]
      exact List.mem_map_of_mem hq
    rwa [← List.map_cons, List.map_map]

/-- Every turn keeps the references that close cycles, and shows those that it reports. -/
theorem Steps.cited {total : List View} (h : Sound g) (hapart : g.PrintsApart)
    (hclassic : g.IsClassic) (hs : s.Valid g) (hfaithful : s.Faithful g total)
    (hcited : ∀ a b, Reported g s.progress a b → Cites g [] done a b ∨ CitedIn g a b s.frames)
    (hstep : Steps g s (.next next)) :
    ∀ a b, Reported g next.progress a b → Cites g [] done a b ∨ CitedIn g a b next.frames := by
  intro a b hreport
  cases hstep with
  | opened => exact (hcited a b hreport).imp_right .inr
  | @referred top below p e later r hpending hvisited hholds htarget =>
    have hseated := hs.seated
    -- a new report comes with the reference that closes the cycle
    rcases Reported.of_refer h.indexed hseated.1.shown.holds hholds hreport with
      hbefore | ⟨hcloses, rfl, rfl⟩
    · refine (hcited a b hbefore).imp_right fun hcited' => hcited'.imp_left fun hhere => ?_
      exact hhere.mono fun t ht => List.mem_cons_of_mem _ ht
    · obtain ⟨q, hq, hsame⟩ := isOpen_iff.1 hcloses
      have heq := (hseated.holds q hq).eq hholds (hsame.trans htarget)
      exact .inr (.inl (cites_referenceTo hseated hholds ⟨q, hq, heq⟩ top.done))
  | tookUp => exact hcited a b hreport
  | @closed top parent rest p hpending hleftover =>
    have hseated := hs.seated.1
    have hconcept := hclassic.concept h hseated.shown.holds hseated.known
    -- sorting keeps the children of a frame where no two print alike
    have hkept := hfaithful.frames.1.close_perm h hapart hseated hpending hconcept
    refine (hcited a b hreport).imp_right fun hcited' => ?_
    rcases hcited' with hhere | hhere | hbelow
    · refine .inl ((hhere.close fun t ht => hkept.mem_iff.2 ht).mono fun t ht => ?_)
      exact List.mem_singleton.1 ht ▸ List.mem_cons_self
    · exact .inl (hhere.mono fun t ht => List.mem_cons_of_mem _ ht)
    · exact .inr hbelow

/-- A tree holds the references that close the cycles found while it was grown. -/
theorem grow_cited (h : Sound g) (hapart : g.PrintsApart) (hclassic : g.IsClassic) (hp : p.Valid g)
    (he : Apt g [] e) (hfresh : e.target ∈ p.unvisited)
    (hcited : ∀ a b, Reported g p a b → Cites g [] done a b)
    (hgrown : grow g e p = .ok (tree, later)) :
    ∀ a b, Reported g later a b → Cites g [] (done ++ [tree]) a b := by
  have htotal := fun hapart => hp.nodup_iris h hapart
  -- what is reported is cited by the trees before or by a frame that is still open
  refine grow_keeps
    (I := fun s => s.Faithful g (unvisitedViews g p) ∧
      ∀ a b, Reported g s.progress a b → Cites g [] done a b ∨ CitedIn g a b s.frames)
    (Q := fun tree later => ∀ a b, Reported g later a b → Cites g [] (done ++ [tree]) a b)
    h hp he hfresh ?_ ?_ ?_ hgrown
  · exact fun frame hopened =>
      ⟨hopened.stageFaithful hfresh, fun a b hreport => .inl (hcited a b hreport)⟩
  · rintro s next hvalid ⟨hfaithful, hcited'⟩ hstep
    exact ⟨hstep.faithful h hvalid hfaithful htotal, hstep.cited h hapart hclassic hvalid hfaithful
      hcited'⟩
  · rintro s tree later hvalid ⟨hfaithful, hcited'⟩ hstep a b hreport
    cases hstep with
    | @finished top _ hpending hleftover =>
      have hseated := hvalid.seated.1
      have hconcept := hclassic.concept h hseated.shown.holds hseated.known
      have hkept := hfaithful.frames.1.close_perm h hapart hseated hpending hconcept
      rcases hcited' a b hreport with hbefore | hhere | hbelow
      · exact hbefore.mono fun t ht => List.mem_append_left _ ht
      · exact (hhere.close fun t ht => hkept.mem_iff.2 ht).mono fun t ht =>
          List.mem_append_right _ ht
      · cases hbelow

/-- In the end every edge back that was reported is shown. -/
theorem Phases.cited (ph : Phases g) (h : Sound g) (hapart : g.PrintsApart)
    (hclassic : g.IsClassic) :
    ∀ a b, Reported g ph.atEnd a b → Cites g [] ph.trees a b := by
  refine ph.rule (J := fun done p => ∀ a b, Reported g p a b → Cites g [] done a b) h ?_ ?_
  · rintro a b ⟨_, _, _, _, _, _, hmem⟩
    cases hmem
  · intro id done p tree later hp hapt hfresh hcited hgrown
    exact grow_cited h hapart hclassic hp hapt hfresh hcited hgrown

end Traversal

/-! ## The marks of cycles -/

namespace Forest

/-- Whether a node is a reference right below another node, to a resource that is shown above it. -/
def BackEdge (f : Forest) (parent : Entry) (t : Tree Entry) : Prop :=
  ∃ above, Tree.Situated f (parent :: above) t ∧ t.value.reference = true ∧
    t.value.iri ∈ (parent :: above).map (·.iri)

/-- Whether a back edge leads from one member of a group of concepts to another. -/
def BackEdgeIn (f : Forest) (component : CycleComponent) (parent : Entry) (t : Tree Entry) : Prop :=
  f.BackEdge parent t ∧ parent.iri ∈ component.members ∧ t.value.iri ∈ component.members

/-- Whether the back edges of a forest mark the given groups of concepts: there is one in each
group, and each is in one of the groups. -/
def MarksCycles (f : Forest) (components : List CycleComponent) : Prop :=
  (∀ component ∈ components, ∃ parent t, f.BackEdgeIn component parent t) ∧
  ∀ parent t, f.BackEdge parent t → ∃ component ∈ components, f.BackEdgeIn component parent t

theorem BackEdge.mono {f f' : Forest} {parent : Entry} {t : Tree Entry} (h : f.BackEdge parent t)
    (hsub : ∀ s ∈ f, s ∈ f') : f'.BackEdge parent t := by
  obtain ⟨above, hsituated, hmark⟩ := h
  exact ⟨above, hsituated.mono hsub, hmark⟩

end Forest

namespace Traversal

variable {g : ResourceGraph} {f : Forest} {parent : Entry} {t : Tree Entry} {a b : ResourceId}
  {component : CycleComponent}

theorem Cites.backEdge (h : Cites g [] f a b) : ∃ parent t, f.BackEdge parent t ∧
    parent.view = g.viewOf a ∧ t.value.view = g.viewOf b := by
  obtain ⟨inner, parent, rest, t, hsituated, hpath, hparentView, hreference, hview, hopenAbove⟩ := h
  rw [List.append_nil] at hpath
  subst hpath
  obtain ⟨q, hq, hsame⟩ := List.mem_map.1 hopenAbove
  exact ⟨parent, t, ⟨rest, hsituated, hreference,
    List.mem_map.2 ⟨q, hq, congrArg View.iri (hsame.trans hview.symm)⟩⟩, hparentView, hview⟩

/-- There is a back edge in each group of concepts that lie on common cycles. -/
theorem Phases.exists_backEdgeIn (ph : Phases g) (h : Sound g) (hapart : g.PrintsApart)
    (hclassic : g.IsClassic) (hcomponent : component ∈ g.cycleComponents) :
    ∃ parent t, ph.trees.BackEdgeIn component parent t := by
  obtain ⟨a, hcycle, hnamed⟩ := ResourceGraph.component_class h hcomponent
  obtain ⟨x, y, hdown, hedge, hreport, hup⟩ := ph.exists_reported h hclassic hcycle
  obtain ⟨parent, t, hback, hparentView, hview⟩ := (ph.cited h hapart hclassic x y hreport).backEdge
  obtain ⟨q, r, hqHolds, hrHolds, rfl, rfl, _⟩ := hreport
  -- both ends of the edge back lie on the cycle
  have hparentNamed := hnamed q.id q hqHolds (hcycle.trans_left hdown) (.head' hedge hup)
  have htargetNamed := hnamed r.id r hrHolds (.tail' hdown hedge) (.trans_right hup hcycle)
  have hparentIri : parent.iri = q.node.text :=
    congrArg View.iri (hparentView.trans hqHolds.viewOf)
  have htargetIri : t.value.iri = r.node.text := congrArg View.iri (hview.trans hrHolds.viewOf)
  exact ⟨parent, t, hback, hparentIri ▸ hparentNamed, htargetIri ▸ htargetNamed⟩

/-- A back edge leads to something that is above it, so that its ends lie on a common cycle. -/
theorem exists_component_of_backEdge (h : Sound g) (hapart : g.PrintsApart)
    (hclassic : g.IsClassic) (hplaced : ∀ t ∈ f, Placed g [] t) (hback : f.BackEdge parent t) :
    ∃ component ∈ g.cycleComponents, f.BackEdgeIn component parent t := by
  obtain ⟨above, hsituated, _, hmem⟩ := id hback
  obtain ⟨path, hshows, htrail, hplaced'⟩ := Placed.situated_trail hplaced hsituated
  obtain ⟨r, hshown⟩ := hplaced'.shown
  have hresources := hshows.map_withIri? h.indexed hapart
  have hfound := withIri?_eq h.indexed hapart hshown.holds hshown.view_eq
  cases hshows with
  | @cons _ q _ rest hshowsParent hshowsRest =>
    -- the target is among the resources on the way to the parent
    have hisAbove : r ∈ q :: rest := by
      obtain ⟨e, he, hsame⟩ := List.mem_map.1 hmem
      have hlisted : g.withIri? e.iri ∈ (q :: rest).map some :=
        hresources ▸ List.mem_map_of_mem he
      rw [hsame, hfound] at hlisted
      obtain ⟨s, hs, heq⟩ := List.mem_map.1 hlisted
      exact Option.some.inj heq ▸ hs
    have hled := hshown.led q rfl
    have hconcept := hclassic.concept h hshowsParent.1 hled.isKnown
    obtain ⟨htargetConcept, hdown⟩ := ResourceGraph.Trail.narrower h ⟨hshown.toFits, htrail⟩
      List.mem_cons_self hconcept
    -- the way down from it closes the cycle
    have hup : TransGen g.Narrower r.id q.id := by
      rcases List.mem_cons.1 hisAbove with rfl | hhigher
      · exact hdown
      · exact (htrail.narrower h hhigher htargetConcept).2
    obtain ⟨component, hcomponent, hparentNamed, htargetNamed⟩ :=
      ResourceGraph.exists_component h hshowsParent.1 hshown.holds hdown hup
    have hparentIri : parent.iri = q.node.text := congrArg View.iri hshowsParent.2
    have htargetIri : t.value.iri = r.node.text := congrArg View.iri hshown.view_eq
    exact ⟨component, hcomponent, hback, hparentIri ▸ hparentNamed, htargetIri ▸ htargetNamed⟩

namespace Phases

variable (ph : Phases g)

/-- The flag is raised just when the hierarchy has a cycle. -/
theorem cycle_iff (h : Sound g) (hclassic : g.IsClassic) :
    ph.atEnd.cycle = true ↔ g.isAcyclic = false := by
  have hflagged := ph.flagged h
  constructor
  · intro hraised
    have hcyclic := hflagged.cyclic hraised
    rw [hclassic.acyclic_iff h] at hcyclic
    exact Bool.eq_false_iff.2 hcyclic
  · intro hcyclic
    rw [← Bool.not_eq_true, ResourceGraph.isAcyclic_iff h] at hcyclic
    obtain ⟨a, hcycle⟩ := not_forall_not.1 hcyclic
    obtain ⟨x, y, _, _, hreport, _⟩ := ph.exists_reported h hclassic hcycle
    exact hflagged.raised hreport.ne_nil

/-- The back edges of the sorted trees mark the groups of concepts on cycles. -/
theorem marksCycles (h : Sound g) (hapart : g.PrintsApart) (hclassic : g.IsClassic) :
    Forest.MarksCycles (sortSiblings ph.trees) g.cycleComponents := by
  have hsorted := ph.sorted_perm h hapart
  constructor
  · intro component hcomponent
    obtain ⟨parent, t, hback, hnamed⟩ := ph.exists_backEdgeIn h hapart hclassic hcomponent
    exact ⟨parent, t, hback.mono fun s hs => hsorted.mem_iff.2 hs, hnamed⟩
  · intro parent t hback
    exact exists_component_of_backEdge h hapart hclassic
      (fun t ht => ph.planted.placed t (mem_of_mem_sortSiblings ht)) hback

end Phases

end Traversal

open Traversal

/-- The cycles that are found while the forest of a reachable graph is built are those of the graph.
Without schemes and collections the flag is raised just when the hierarchy has a cycle, and the
back edges of the forest mark the groups of concepts on cycles; in any case it is raised for cycles
only. -/
theorem cycles_found (g : ResourceGraph) (hreach : Reachable g) :
    ∃ built, build g = .ok built ∧
      (g.configuration.conceptSchemes = false → g.configuration.collections = false →
        (built.cycle = true ↔ g.isAcyclic = false) ∧
        (g.PrintsApart → built.forest.MarksCycles g.cycleComponents)) ∧
      (built.cycle = true →
        (∃ a, TransGen g.Narrower a a) ∨ ∃ k, TransGen g.Nests k k) := by
  have hsound := hreach.sound
  obtain ⟨ph⟩ := exists_phases hsound
  refine ⟨_, ph.build_eq hsound, fun hschemes hcollections => ?_, fun hraised => ?_⟩
  · have hclassic : g.IsClassic := ⟨hschemes, hcollections⟩
    exact ⟨ph.cycle_iff hsound hclassic, fun hapart => ph.marksCycles hsound hapart hclassic⟩
  · by_contra hneither
    rw [not_or, not_exists, not_exists] at hneither
    exact (ph.flagged hsound).cyclic hraised hneither

/-- Statements about two concepts each of which is narrower than the other. -/
def mutualStatements : List Rdf.Triple := [
  ⟨.iri "urn:a", "http://www.w3.org/2004/02/skos/core#narrower", .node (.iri "urn:b")⟩,
  ⟨.iri "urn:b", "http://www.w3.org/2004/02/skos/core#narrower", .node (.iri "urn:a")⟩]

/-- The graph of these statements. -/
def mutualHierarchy : ResourceGraph where
  configuration := {}
  resources := #[
    { id := 0, node := .iri "urn:a", kind := .concept,
      links := { narrower := .ofList [1], broader := .ofList [1] } },
    { id := 1, node := .iri "urn:b", kind := .concept,
      links := { narrower := .ofList [0], broader := .ofList [0] } }]
  index := ⟨[(.iri "urn:a", 0), (.iri "urn:b", 1)]⟩
  counters := { triples := 2 }

theorem mutualHierarchy_reachable : Reachable mutualHierarchy := by
  have htaken : (ResourceGraph.new {}).ingestAll mutualStatements = .ok mutualHierarchy := by
    decide +kernel
  exact (Reachable.new _).ingestAll htaken

theorem cycles_found_mutual : Reachable mutualHierarchy ∧ ∃ built,
    build mutualHierarchy = .ok built ∧ built.cycle = true ∧
    built.forest.MarksCycles mutualHierarchy.cycleComponents := by
  refine ⟨mutualHierarchy_reachable, ?_⟩
  obtain ⟨built, hgrown, hclassic, _⟩ := cycles_found mutualHierarchy mutualHierarchy_reachable
  have hprintsApart : mutualHierarchy.PrintsApart := by
    show PrintApart _
    decide
  obtain ⟨hflag, hmarks⟩ := hclassic rfl rfl
  exact ⟨built, hgrown, hflag.2 (by decide +kernel), hmarks hprintsApart⟩

end Thesaurus
