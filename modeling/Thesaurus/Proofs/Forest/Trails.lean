import Thesaurus.Proofs.Forest.Shape
import Thesaurus.Proofs.Hierarchy.Cycles

/-!
# What is above a node

Below a concept there are only concepts, and above a collection there are only collections, so that
a resource that is met again further up lies on a cycle of one of two relations.

- `ResourceGraph.Nests`: a collection above a member that is a collection.
- `ResourceGraph.Trail.narrower`, `ResourceGraph.Trail.nests`: how the resources of a trail are
  related.
- `ResourceGraph.Trail.cycle`: a resource that is above itself lies on a cycle.
- `ResourceGraph.Acyclic`: whether neither concepts nor collections lie on cycles.
- `ResourceGraph.HandsDown`, `ResourceGraph.Trail.all`: what holds of the outermost resource and is
  handed down holds of all.
- `ResourceGraph.isOutside_handsDown`, `ResourceGraph.Trail.below_scheme`: what is below a concept
  outside all schemes, and below a scheme.
- `Traversal.Planted.owned_iff`, `Traversal.Planted.exists_owned`: what trees own is what was
  visited when they were grown.
- `Traversal.Planted.exists_root`: what has nothing above it is owned at the top.
- `Traversal.Grown.outermost`: the outermost resource is one from which trees were grown.
-/

namespace Thesaurus

open Relation (ReflTransGen TransGen)

namespace ResourceGraph

/-- Whether a collection has another one as a member. -/
def Nests (g : ResourceGraph) (k m : ResourceId) : Prop :=
  m ∈ (g.linksOf k).members ∧ (g.kindOf m).isCollection = true

variable {g : ResourceGraph} {r q parent : Resource} {above path : List Resource}

/-! ## One step -/

/-- Below a concept there are narrower concepts. -/
theorem AllowsBelow.narrower (h : Sound g) (hparent : g.Holds parent) (hr : g.Holds r)
    (hled : g.AllowsBelow parent r.id) (hkind : parent.kind = .concept) :
    r.kind = .concept ∧ g.Narrower parent.id r.id := by
  have hnarrower : r.id ∈ parent.links.narrower := by
    simpa only [AllowsBelow, hkind] using hled
  rw [← hparent.linksOf] at hnarrower
  have hkinds := h.linked.narrower_kinds parent.id r.id hnarrower
  rw [hr.kindOf] at hkinds
  exact ⟨hkinds.2, hnarrower⟩

/-- Whatever is no concept is below a collection. -/
theorem AllowsBelow.member (h : Sound g) (hparent : g.Holds parent) (hr : g.Holds r)
    (hled : g.AllowsBelow parent r.id) (hkind : r.kind ≠ .concept) :
    parent.kind.isCollection = true ∧ r.id ∈ parent.links.members := by
  cases hkind' : parent.kind with
  | unknown => simp [AllowsBelow, hkind'] at hled
  | concept => exact absurd (hled.narrower h hparent hr hkind').1 hkind
  | conceptScheme =>
    simp only [AllowsBelow, hkind', hr.kindOf] at hled
    exact absurd hled.2 hkind
  | collection => exact ⟨rfl, by simpa only [AllowsBelow, hkind'] using hled⟩
  | orderedCollection => exact ⟨rfl, by simpa only [AllowsBelow, hkind'] using hled⟩

/-! ## Trails -/

theorem Trail.holds (h : g.Trail path) : ∀ r ∈ path, g.Holds r := by
  induction path with
  | nil => exact fun r hr => absurd hr List.not_mem_nil
  | cons r above ih =>
    intro s hs
    rcases List.mem_cons.1 hs with rfl | hs
    · exact h.1.holds
    · exact ih h.2 s hs

/-- Whatever is below a concept is a concept, and narrower in one or more steps. -/
theorem Trail.narrower (h : Sound g) (ht : g.Trail (r :: above)) (hq : q ∈ above)
    (hkind : q.kind = .concept) : r.kind = .concept ∧ TransGen g.Narrower q.id r.id := by
  induction above generalizing r with
  | nil => cases hq
  | cons parent rest ih =>
    obtain ⟨hfits, htrail⟩ := ht
    have hled := hfits.led parent rfl
    rcases List.mem_cons.1 hq with rfl | hq
    · obtain ⟨hconcept, hnarrower⟩ := hled.narrower h htrail.1.holds hfits.holds hkind
      exact ⟨hconcept, .single hnarrower⟩
    · obtain ⟨hparentConcept, hdown⟩ := ih htrail hq
      obtain ⟨hconcept, hnarrower⟩ := hled.narrower h htrail.1.holds hfits.holds hparentConcept
      exact ⟨hconcept, hdown.tail hnarrower⟩

/-- Whatever is above a collection is a collection, and holds it in one or more steps. -/
theorem Trail.nests (h : Sound g) (ht : g.Trail (r :: above)) (hq : q ∈ above)
    (hkind : r.kind.isCollection = true) :
    q.kind.isCollection = true ∧ TransGen g.Nests q.id r.id := by
  induction above generalizing r with
  | nil => cases hq
  | cons parent rest ih =>
    obtain ⟨hfits, htrail⟩ := ht
    obtain ⟨hparentKind, hmember⟩ := (hfits.led parent rfl).member h htrail.1.holds hfits.holds
      (Kind.not_concept_of_isCollection hkind)
    have hnests : g.Nests parent.id r.id := by
      rw [Nests, htrail.1.holds.linksOf, hfits.holds.kindOf]
      exact ⟨hmember, hkind⟩
    rcases List.mem_cons.1 hq with rfl | hq
    · exact ⟨hparentKind, .single hnests⟩
    · obtain ⟨hcollection, hdown⟩ := ih htrail hq hparentKind
      exact ⟨hcollection, hdown.tail hnests⟩

/-- Whatever is above something that is no concept is a collection. -/
theorem Trail.collections (h : Sound g) (ht : g.Trail (r :: above)) (hq : q ∈ above)
    (hkind : r.kind ≠ .concept) : q.kind.isCollection = true := by
  cases above with
  | nil => cases hq
  | cons parent rest =>
    obtain ⟨hfits, htrail⟩ := ht
    obtain ⟨hparentKind, _⟩ := (hfits.led parent rfl).member h htrail.1.holds hfits.holds hkind
    rcases List.mem_cons.1 hq with rfl | hq
    · exact hparentKind
    · exact (htrail.nests h hq hparentKind).1

/-- A resource that is above itself lies on a cycle. -/
theorem Trail.cycle (h : Sound g) (ht : g.Trail (r :: above)) (hr : r ∈ above) :
    (r.kind = .concept ∧ TransGen g.Narrower r.id r.id) ∨
      (r.kind.isCollection = true ∧ TransGen g.Nests r.id r.id) := by
  by_cases hconcept : r.kind = .concept
  · exact .inl (ht.narrower h hr hconcept)
  · exact .inr (ht.nests h hr (ht.collections h hr hconcept))

/-- Whether no concept is narrower than itself, and no collection is a member of itself, in however
many steps. -/
def Acyclic (g : ResourceGraph) : Prop :=
  (∀ a, ¬ TransGen g.Narrower a a) ∧ ∀ k, ¬ TransGen g.Nests k k

/-- Without cycles nothing is above itself. -/
theorem Acyclic.not_mem (h : Sound g) (ha : g.Acyclic) (ht : g.Trail (r :: above)) : r ∉ above := by
  intro hr
  rcases ht.cycle h hr with ⟨_, hcycle⟩ | ⟨_, hcycle⟩
  · exact ha.1 r.id hcycle
  · exact ha.2 r.id hcycle

/-- From every concept one can climb to broader ones only so often. -/
theorem Acyclic.climb_narrower (h : Sound g) (ha : g.Acyclic) : WellFounded g.Narrower :=
  wellFounded_of_acyclic g.size (fun _ _ hab => (Narrower.lt h hab).1) ha.1

/-- From every collection one can climb to those that hold it only so often. -/
theorem Acyclic.climb_nests (ha : g.Acyclic) : WellFounded g.Nests :=
  wellFounded_of_acyclic g.size
    (fun _ _ hab => Sound.lt_size_of_mem (f := (·.members)) rfl hab.1) ha.2

/-! ## What is handed down -/

/-- Whether what holds of all resources of a trail holds of whatever can be shown at its end. -/
def HandsDown (g : ResourceGraph) (D : Resource → Prop) : Prop :=
  ∀ parent above r, g.Trail (parent :: above) → (∀ q ∈ parent :: above, D q) →
    g.Fits (parent :: above) r → D r

/-- What holds of the outermost resource holds of all, if it is handed down. -/
theorem Trail.all {D : Resource → Prop} (ht : g.Trail path) (hdown : g.HandsDown D)
    (hroot : ∀ r ∈ path.getLast?, D r) : ∀ r ∈ path, D r := by
  induction path with
  | nil => exact fun r hr => absurd hr List.not_mem_nil
  | cons r above ih =>
    intro s hs
    cases above with
    | nil =>
      rw [List.mem_singleton.1 hs]
      exact hroot r rfl
    | cons parent rest =>
      rw [List.getLast?_cons_cons] at hroot
      have hupper := ih ht.2 hroot
      rcases List.mem_cons.1 hs with rfl | hs
      · exact hdown parent rest _ ht.2 hupper ht.1
      · exact hupper s hs

/-- Whether a resource is a concept that is shown outside all schemes. -/
def IsOutside (g : ResourceGraph) (r : Resource) : Prop :=
  r.kind = .concept ∧ g.shownOutside r.id = true

/-- Outside all contexts nothing is above a concept but concepts. -/
theorem nearestContext?_outside (hpath : ∀ q ∈ path, g.IsOutside q) :
    nearestContext? path = none := by
  refine List.find?_eq_none.2 fun q hq => ?_
  simp [(hpath q hq).1, Kind.gathers]

/-- Below concepts outside all schemes there are only such concepts. -/
theorem isOutside_handsDown (h : Sound g) : g.HandsDown g.IsOutside := by
  intro parent above r htrail houtside hfits
  obtain ⟨hconcept, _⟩ := (hfits.led parent rfl).narrower h htrail.1.holds hfits.holds
    (houtside parent List.mem_cons_self).1
  have hscope := hfits.in_scope hconcept
  rw [InScope, nearestContext?_outside houtside] at hscope
  exact ⟨hconcept, hscope⟩

/-- Below a scheme there are only concepts that belong to it. -/
theorem Trail.below_scheme {inner : List Resource} {s : Resource} (h : Sound g)
    (ht : g.Trail (inner ++ [s])) (hs : s.kind = .conceptScheme) :
    ∀ r ∈ inner, r.kind = .concept ∧ r.id ∈ s.links.schemeMembers := by
  induction inner with
  | nil => exact fun r hr => absurd hr List.not_mem_nil
  | cons r rest ih =>
    rw [List.cons_append] at ht
    obtain ⟨hfits, htrail⟩ := ht
    have hbelow := ih htrail
    -- anything but a concept would have nothing but collections above it
    have hconcept : r.kind = .concept := by
      by_contra hother
      have hcollection := Trail.collections h ⟨hfits, htrail⟩
        (List.mem_append_right rest (List.mem_singleton_self s)) hother
      rw [hs] at hcollection
      cases hcollection
    have hnearest : nearestContext? (rest ++ [s]) = some s := by
      rw [nearestContext?, List.find?_append, List.find?_eq_none.2]
      · simp [hs, Kind.gathers]
      · intro q hq
        simp [(hbelow q hq).1, Kind.gathers]
    have hscope := hfits.in_scope hconcept
    rw [InScope, hnearest] at hscope
    have hmember : r.id ∈ s.links.schemeMembers := by
      have hdeclared := hscope.1
      rwa [Resource.declaredMembers, if_pos hs] at hdeclared
    intro q hq
    rcases List.mem_cons.1 hq with rfl | hq
    · exact ⟨hconcept, hmember⟩
    · exact hbelow q hq

end ResourceGraph

namespace Traversal

variable {g : ResourceGraph} {frames : List Frame} {p later : Progress} {trees : Forest}
  {r : Resource} {path : List Resource} {ids : List ResourceId} {above : List Entry}
  {t : Tree Entry}

/-- The open resources form a trail. -/
theorem AllSeated.trail (h : AllSeated g frames) : g.Trail (pathOf frames) := by
  induction frames with
  | nil => trivial
  | cons f below ih => exact ⟨h.1.shown.toFits, ih h.2⟩

/-! ## What trees own -/

/-- Among what is unvisited is shown what is unvisited. -/
theorem mem_unvisitedViews (h : Sound g) (hapart : g.PrintsApart) (hp : p.Valid g)
    (hr : g.Holds r) : r.view ∈ unvisitedViews g p ↔ r.id ∈ p.unvisited := by
  constructor
  · intro hv
    obtain ⟨id, hid, hsame⟩ := List.mem_map.1 hv
    have hinside := ResourceGraph.lt_size_of_isKnown (hp.typed id hid)
    rw [← hr.viewOf] at hsame
    exact hapart.eq_of_iri h.indexed hinside hr.lt_size (congrArg View.iri hsame) ▸ hid
  · intro hid
    exact List.mem_map.2 ⟨r.id, hid, hr.viewOf⟩

/-- Trees own just what was not visited before they were grown and is visited then. -/
theorem Planted.owned_iff (h : Sound g) (hapart : g.PrintsApart) (hp : p.Valid g)
    (hplanted : Planted g p trees later) (hr : g.Holds r) :
    r.view ∈ Forest.ownedViews trees ↔ r.id ∈ p.unvisited ∧ r.id ∉ later.unvisited := by
  have hcovered := hplanted.covered hapart
  have hnodup := (hcovered.nodup_iff).2 (List.Nodup.of_map _ (hp.nodup_iris h hapart))
  have hdisjoint := (List.nodup_append.1 hnodup).2.2
  rw [← mem_unvisitedViews h hapart hp hr, ← mem_unvisitedViews h hapart hplanted.valid hr,
    ← hcovered.mem_iff, List.mem_append]
  constructor
  · intro howned
    exact ⟨.inl howned, fun hleft => hdisjoint _ howned _ hleft rfl⟩
  · rintro ⟨howned | hleft, hvisited⟩
    · exact howned
    · exact absurd hleft hvisited

/-- What is visited while trees are grown is owned by a node of theirs. -/
theorem Planted.exists_owned (h : Sound g) (hapart : g.PrintsApart) (hp : p.Valid g)
    (hplanted : Planted g p trees later) (hr : g.Holds r) (hbefore : r.id ∈ p.unvisited)
    (hafter : r.id ∉ later.unvisited) :
    ∃ above t path, Tree.Situated trees above t ∧ t.value.reference = false ∧
      t.value.view = r.view ∧ ShowPath g above path ∧ g.Trail (r :: path) := by
  obtain ⟨above, t, hsituated, howned, hview⟩ := Forest.mem_ownedViews.1
    ((hplanted.owned_iff h hapart hp hr).2 ⟨hbefore, hafter⟩)
  obtain ⟨path, hshows, htrail, hplaced⟩ := Placed.situated_trail hplanted.placed hsituated
  obtain ⟨s, hshown⟩ := hplaced.shown
  obtain rfl := hapart.eq_of_view h.indexed hshown.holds hr (hshown.view_eq.symm.trans hview)
  exact ⟨above, t, path, hsituated, howned, hview, hshows, hshown.toFits, htrail⟩

/-- Without anything above it a node is a root. -/
theorem mem_of_situated_nil (h : Tree.Situated trees [] t) : t ∈ trees := by
  cases h with
  | root hmem => exact hmem

/-- Nothing is above a node that shows the end of an empty path. -/
theorem ShowPath.eq_nil (h : ShowPath g above []) : above = [] := by
  cases h
  rfl

/-- What is visited while trees are grown is owned at the top, if nothing is above it wherever it
is shown. -/
theorem Planted.exists_root (h : Sound g) (hapart : g.PrintsApart) (hp : p.Valid g)
    (hplanted : Planted g p trees later) (hr : g.Holds r) (hbefore : r.id ∈ p.unvisited)
    (hafter : r.id ∉ later.unvisited)
    (halone : ∀ above t path, Tree.Situated trees above t → t.value.view = r.view →
      ShowPath g above path → g.Trail (r :: path) → path = []) :
    ∃ t ∈ trees, t.value.reference = false ∧ t.value.view = r.view := by
  obtain ⟨above, t, path, hsituated, howned, hview, hshows, htrail⟩ :=
    hplanted.exists_owned h hapart hp hr hbefore hafter
  obtain rfl := halone above t path hsituated hview hshows htrail
  obtain rfl := hshows.eq_nil
  exact ⟨t, mem_of_situated_nil hsituated, howned, hview⟩

/-- The outermost resource above a node is one from which the trees were grown. -/
theorem Grown.outermost (h : Sound g) (hapart : g.PrintsApart) (hgrown : Grown g ids p trees later)
    (ht : Tree.Situated trees above t) (hview : t.value.view = r.view)
    (hshows : ShowPath g above path) (htrail : g.Trail (r :: path)) :
    ∃ root, (r :: path).getLast? = some root ∧ root.id ∈ ids := by
  obtain ⟨s, hs, hlast⟩ := ht.outermost
  obtain ⟨id, hid, ⟨k, hkHolds, rfl, hkView⟩, _⟩ := hgrown.chosen s hs
  have hviews : (t.value :: above).map (·.view) = (r :: path).map (·.view) := by
    rw [List.map_cons, List.map_cons, hview, hshows.map_view]
  have hlastView := congrArg List.getLast? hviews
  rw [List.getLast?_map, List.getLast?_map, hlast, Option.map_some] at hlastView
  obtain ⟨root, hroot, hrootView⟩ := Option.map_eq_some_iff.1 hlastView.symm
  refine ⟨root, hroot, ?_⟩
  have hholds := htrail.holds root (List.mem_of_getLast? hroot)
  rw [hapart.eq_of_view h.indexed hholds hkHolds (hrootView.trans hkView)]
  exact hid

end Traversal

end Thesaurus
