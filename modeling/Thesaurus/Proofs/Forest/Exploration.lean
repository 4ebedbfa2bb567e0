import Thesaurus.Proofs.Forest.Trails
import Thesaurus.Proofs.Graph.Lists

/-!
# How far a traversal goes

Resources are closed in an order in which everything that one of them leads to was closed before it,
unless it was still open, in which case an edge back to it is reported.

- `FinishOrder`: such an order.
- `FinishOrder.exists_back`: every cycle in it holds an edge back.
- `Explores`: a relation whose pairs a traversal follows.
- `Explored`: the order in which a traversal has closed resources so far.
- `Steps.explored`: every turn keeps it or prolongs it.
- `grow_explored`, `growEach_explored`, `Phases.explored`: so do trees.
- `explores_outside`, `explores_nests`: the two relations that are followed.
-/

namespace Thesaurus

open Relation (ReflTransGen TransGen)

/-- Whether each id of a list leads only to ids behind it, apart from those to which it leads
back. -/
inductive FinishOrder (R Back : ResourceId → ResourceId → Prop) : List ResourceId → Prop where
  | nil : FinishOrder R Back []
  | cons {a : ResourceId} {order : List ResourceId} (leads : ∀ b, R a b → b ∈ order ∨ Back a b)
      (before : FinishOrder R Back order) : FinishOrder R Back (a :: order)

namespace FinishOrder

variable {R Back Back' : ResourceId → ResourceId → Prop} {order : List ResourceId}
  {a b c : ResourceId}

theorem mono (h : FinishOrder R Back order) (hback : ∀ a b, Back a b → Back' a b) :
    FinishOrder R Back' order := by
  induction h with
  | nil => exact .nil
  | cons hleads _ ih =>
    exact .cons (fun b hab => (hleads b hab).imp_right (hback _ b)) ih

theorem leads (h : FinishOrder R Back order) (ha : a ∈ order) (hab : R a b) :
    b ∈ order ∨ Back a b := by
  induction h with
  | nil => cases ha
  | cons hleads _ ih =>
    rcases List.mem_cons.1 ha with rfl | ha
    · exact (hleads b hab).imp_left (List.mem_cons_of_mem _)
    · exact (ih ha).imp_left (List.mem_cons_of_mem _)

/-- A way that leaves what is closed leads back on some edge. -/
theorem exists_exit (h : FinishOrder R Back order) (hb : b ∈ order) (hbc : ReflTransGen R b c) :
    c ∈ order ∨
      ∃ x y, ReflTransGen R b x ∧ R x y ∧ Back x y ∧ ReflTransGen R y c := by
  induction hbc using ReflTransGen.head_induction_on with
  | refl => exact .inl hb
  | @head b d hbd hdc ih =>
    rcases h.leads hb hbd with hclosed | hback
    · rcases ih hclosed with hlast | ⟨x, y, hdx, hxy, hback, hyc⟩
      · exact .inl hlast
      · exact .inr ⟨x, y, .head hbd hdx, hxy, hback, hyc⟩
    · exact .inr ⟨b, d, .refl, hbd, hback, hdc⟩

/-- Every cycle of what is closed holds an edge back. -/
theorem exists_back (h : FinishOrder R Back order) (ha : a ∈ order) (hcycle : TransGen R a a) :
    ∃ x y, ReflTransGen R a x ∧ R x y ∧ Back x y ∧ ReflTransGen R y a := by
  -- by induction on the order: a cycle through its first id leaves the ids behind it
  induction h with
  | nil => cases ha
  | @cons first order hleads hbefore ih =>
    rcases List.mem_cons.1 ha with rfl | ha
    · obtain ⟨b, hab, hba⟩ := TransGen.head'_iff.1 hcycle
      rcases hleads b hab with hclosed | hback
      · rcases hbefore.exists_exit hclosed hba with hagain | ⟨x, y, hbx, hxy, hback, hya⟩
        · exact ih hagain
        · exact ⟨x, y, .head hab hbx, hxy, hback, hya⟩
      · exact ⟨a, b, .refl, hab, hback, hba⟩
    · exact ih ha

end FinishOrder

namespace Traversal

/-- Whether a traversal that starts at resources with some property follows every pair of a relation
between resources of known kind: the property is handed down, and where it holds there is an edge
for each pair. -/
structure Explores (g : ResourceGraph) (D : Resource → Prop)
    (R : ResourceId → ResourceId → Prop) : Prop where
  handsDown : g.HandsDown D
  known : ∀ a b, R a b → (g.kindOf b).isKnown = true
  followed : ∀ path r, g.Trail (r :: path) → (∀ q ∈ r :: path, D q) → ∀ b, R r.id b →
    ∃ e ∈ edgesBelow g path r, e.target = b

/-- Whether an edge back was reported, from a resource to one that was open above it. -/
def Reported (g : ResourceGraph) (p : Progress) (a b : ResourceId) : Prop :=
  ∃ parent target, g.Holds parent ∧ g.Holds target ∧ parent.id = a ∧ target.id = b ∧
    .hierarchyCycle target.node parent.node ∈ p.issues

/-- Whether everything that the open resources lead to is met already, or is still to come, or is
being placed. -/
def AllFollowed (R met : ResourceId → ResourceId → Prop) :
    Option ResourceId → List Frame → Prop
  | _, [] => True
  | placing, f :: below =>
    (∀ b, R f.resource.id b → (∃ e ∈ f.pending, e.target = b) ∨ met f.resource.id b ∨
      placing = some b) ∧
    AllFollowed R met (some f.resource.id) below

/-- What holds of a stage in which resources were closed in the given order, the latest first. They
lead to resources closed before, or back to others. What is visited is closed or open, and every
pair is followed or will be. -/
structure Explored (g : ResourceGraph) (D : Resource → Prop) (R : ResourceId → ResourceId → Prop)
    (order : List ResourceId) (s : Stage) : Prop where
  inside : ∀ q ∈ pathOf s.frames, D q
  ordered : FinishOrder R (Reported g s.progress) order
  openVisited : ∀ q ∈ pathOf s.frames, q.id ∉ s.progress.unvisited
  visited : ∀ a ∈ order, a ∉ s.progress.unvisited
  found : ∀ a, (g.kindOf a).isKnown = true → a ∉ s.progress.unvisited →
    a ∈ order ∨ ∃ q ∈ pathOf s.frames, q.id = a
  followed : AllFollowed R (fun a b => b ∈ order ∨ Reported g s.progress a b) none s.frames
  backVisited : ∀ a b, Reported g s.progress a b → b ∉ s.progress.unvisited

variable {g : ResourceGraph} {D : Resource → Prop} {R met met' : ResourceId → ResourceId → Prop}
  {order ids : List ResourceId} {s next : Stage} {p later : Progress} {frames : List Frame}
  {placing : Option ResourceId} {tree : Tree Entry} {trees : Forest} {e : Edge}
  {parent target : Resource} {a b : ResourceId}

/-! ## Frames -/

theorem AllFollowed.mono (h : AllFollowed R met placing frames)
    (hmet : ∀ a b, met a b → met' a b) : AllFollowed R met' placing frames := by
  induction frames generalizing placing with
  | nil => trivial
  | cons f below ih =>
    exact ⟨fun b hb => (h.1 b hb).imp_right (Or.imp_left (hmet _ b)), ih h.2⟩

/-- What was being placed is met once it is closed. -/
theorem AllFollowed.close {id : ResourceId} (h : AllFollowed R met (some id) frames)
    (hid : ∀ a, met a id) : AllFollowed R met none frames := by
  cases frames with
  | nil => trivial
  | cons f below =>
    refine ⟨fun b hb => ?_, h.2⟩
    rcases h.1 b hb with hpending | hdone | hplacing
    · exact .inl hpending
    · exact .inr (.inl hdone)
    · cases hplacing
      exact .inr (.inl (hid _))

/-- An edge that is followed is met, or leads to what is placed now. -/
theorem AllFollowed.leave {top : Frame} {below : List Frame} {later : List Edge}
    (h : AllFollowed R met none (top :: below)) (hpending : top.pending = e :: later)
    (he : R top.resource.id e.target → met top.resource.id e.target ∨ placing = some e.target) :
    AllFollowed R met placing (top.leaving later :: below) := by
  refine ⟨fun b hb => ?_, h.2⟩
  rcases h.1 b hb with ⟨e', he', rfl⟩ | hdone | hplacing
  · rw [hpending] at he'
    rcases List.mem_cons.1 he' with rfl | he'
    · exact .inr (he hb)
    · exact .inl ⟨e', he', rfl⟩
  · exact .inr (.inl hdone)
  · cases hplacing

/-! ## Reports -/

theorem Reported.refer {closes : Bool} (h : Reported g p a b) :
    Reported g (p.refer parent target closes) a b := by
  obtain ⟨x, y, hx, hy, rfl, rfl, hmem⟩ := h
  refine ⟨x, y, hx, hy, rfl, rfl, ?_⟩
  unfold Progress.refer
  dsimp only
  split
  · exact List.mem_append_left _ hmem
  · exact hmem

/-- What is reported after a reference was reported before, or is the reference itself. -/
theorem Reported.of_refer {closes : Bool} (hg : Indexed g) (hparent : g.Holds parent)
    (htarget : g.Holds target) (h : Reported g (p.refer parent target closes) a b) :
    Reported g p a b ∨ closes = true ∧ a = parent.id ∧ b = target.id := by
  obtain ⟨x, y, hx, hy, rfl, rfl, hmem⟩ := h
  unfold Progress.refer at hmem
  dsimp only at hmem
  split at hmem
  · next hclosing =>
    rcases List.mem_append.1 hmem with hmem | hmem
    · exact .inl ⟨x, y, hx, hy, rfl, rfl, hmem⟩
    · have hsame := List.mem_singleton.1 hmem
      injection hsame with htargets hparents
      exact .inr ⟨hclosing, hg.node_inj _ _ x parent hx hparent hparents,
        hg.node_inj _ _ y target hy htarget htargets⟩
  · exact .inl ⟨x, y, hx, hy, rfl, rfl, hmem⟩

theorem reported_of_closes (hparent : g.Holds parent) (htarget : g.Holds target) :
    Reported g (p.refer parent target true) parent.id target.id :=
  ⟨parent, target, hparent, htarget, rfl, rfl,
    List.mem_append_right _ (List.mem_singleton_self _)⟩

theorem isOpen_iff : isOpen frames a = true ↔ ∃ q ∈ pathOf frames, q.id = a := by
  simp [isOpen, pathOf]

/-! ## Turns -/

/-- Closing the innermost frame closes its resource. -/
theorem Explored.close {top : Frame} {below : List Frame}
    (h : Explored g D R order ⟨top :: below, p⟩) (hpending : top.pending = []) :
    Explored g D R (top.resource.id :: order) ⟨below, p⟩ := by
  -- all edges of the closed frame were followed or reported
  have hleads : ∀ b, R top.resource.id b → b ∈ order ∨ Reported g p top.resource.id b := by
    intro b hb
    rcases h.followed.1 b hb with ⟨e, he, _⟩ | hdone | hplacing
    · rw [hpending] at he
      cases he
    · exact hdone
    · cases hplacing
  have hbelowFollowed : AllFollowed R
      (fun a b => b ∈ top.resource.id :: order ∨ Reported g p a b) (some top.resource.id) below :=
    h.followed.2.mono fun a b => Or.imp_left (List.mem_cons_of_mem _)
  refine ⟨fun q hq => h.inside q (List.mem_cons_of_mem _ hq), .cons hleads h.ordered,
    fun q hq => h.openVisited q (List.mem_cons_of_mem _ hq), ?_, ?_,
    hbelowFollowed.close fun a => .inl List.mem_cons_self, h.backVisited⟩
  · intro a ha
    rcases List.mem_cons.1 ha with rfl | ha
    · exact h.openVisited top.resource List.mem_cons_self
    · exact h.visited a ha
  · intro a hknown hvisited
    rcases h.found a hknown hvisited with hclosed | ⟨q, hq, rfl⟩
    · exact .inl (List.mem_cons_of_mem _ hclosed)
    · rcases List.mem_cons.1 hq with rfl | hq
      · exact .inl List.mem_cons_self
      · exact .inr ⟨q, hq, rfl⟩

/-- A resource that is opened has all that it leads to still to come. -/
theorem Explored.opened {frame : Frame} {left : List Frame} (hE : Explores g D R)
    (hx : Explored g D R order ⟨frames, p⟩) (hsame : pathOf left = pathOf frames)
    (hfollowed : AllFollowed R (fun a b => b ∈ order ∨ Reported g p a b) (some e.target) left)
    (hopened : Opened g (pathOf frames) e frame) (htrail : g.Trail (pathOf frames))
    (hD : D frame.resource) : Explored g D R order ⟨frame :: left, p.visit e.target⟩ := by
  have hpath : pathOf (frame :: left) = frame.resource :: pathOf frames := congrArg _ hsame
  have hinside : ∀ q ∈ frame.resource :: pathOf frames, D q := by
    intro q hq
    rcases List.mem_cons.1 hq with rfl | hq
    · exact hD
    · exact hx.inside q hq
  -- what was visited stays visited
  have hstays : ∀ a, a ∉ p.unvisited → a ∉ (p.visit e.target).unvisited := fun a hvisited hagain =>
    hvisited (IdSet.mem_erase.1 hagain).1
  refine ⟨hpath ▸ hinside, hx.ordered, ?_, fun a ha => hstays a (hx.visited a ha), ?_,
    ⟨fun b hb => ?_, ?_⟩, fun a b hback => hstays b (hx.backVisited a b hback)⟩
  · rw [hpath]
    intro q hq
    rcases List.mem_cons.1 hq with rfl | hq
    · rw [← hopened.target_eq]
      exact fun hagain => (IdSet.mem_erase.1 hagain).2 rfl
    · exact hstays q.id (hx.openVisited q hq)
  · rw [hpath]
    intro a hknown hvisited
    by_cases hsame' : a = e.target
    · exact .inr ⟨frame.resource, List.mem_cons_self, hopened.target_eq.symm.trans hsame'.symm⟩
    · have hbefore : a ∉ p.unvisited := fun hagain => hvisited (IdSet.mem_erase.2 ⟨hagain, hsame'⟩)
      exact (hx.found a hknown hbefore).imp_right fun ⟨q, hq, heq⟩ =>
        ⟨q, List.mem_cons_of_mem _ hq, heq⟩
  · obtain ⟨e', he', htarget⟩ := hE.followed _ _ ⟨hopened.seated.shown.toFits, htrail⟩ hinside b hb
    exact .inl ⟨e', hopened.pending_perm.mem_iff.2 he', htarget⟩
  · rw [← hopened.target_eq]
    exact hfollowed

/-- A reference leads to something closed, or back to something open, which is reported. -/
theorem Explored.referred {top : Frame} {below : List Frame} {later : List Edge} {r : Resource}
    {t : Tree Entry} (hE : Explores g D R) (h : Sound g) (hs : AllSeated g (top :: below))
    (hx : Explored g D R order ⟨top :: below, p⟩) (hpending : top.pending = e :: later)
    (hvisited : e.target ∉ p.unvisited) (hholds : g.Holds r) (htarget : e.target = r.id) :
    Explored g D R order ⟨(top.leaving later).add t :: below,
      p.refer top.resource r (isOpen (top :: below) e.target)⟩ := by
  have htopHolds := hs.1.shown.holds
  have hback : ∀ a b, Reported g (p.refer top.resource r (isOpen (top :: below) e.target)) a b →
      Reported g p a b ∨ isOpen (top :: below) e.target = true ∧ a = top.resource.id ∧ b = r.id :=
    fun a b => Reported.of_refer h.indexed htopHolds hholds
  refine ⟨hx.inside, hx.ordered.mono fun _ _ => Reported.refer, hx.openVisited, hx.visited,
    hx.found, ?_, fun a b hreport => ?_⟩
  · have hfollowed : AllFollowed R (fun a b => b ∈ order ∨
        Reported g (p.refer top.resource r (isOpen (top :: below) e.target)) a b) none
        (top :: below) := hx.followed.mono fun _ _ => Or.imp_right Reported.refer
    refine AllFollowed.leave hfollowed hpending fun hR => .inl ?_
    rcases hx.found e.target (hE.known _ _ hR) hvisited with hclosed | hopenAbove
    · exact .inl hclosed
    · refine .inr ?_
      rw [isOpen_iff.2 hopenAbove, htarget]
      exact reported_of_closes htopHolds hholds
  · rcases hback a b hreport with hbefore | ⟨_, _, rfl⟩
    · exact hx.backVisited a b hbefore
    · rw [← htarget]
      exact hvisited

/-- Every turn keeps the order, or prolongs it. -/
theorem Steps.explored (hE : Explores g D R) (h : Sound g) (hs : s.Valid g)
    (hx : ∃ order, Explored g D R order s) (hstep : Steps g s (.next next)) :
    ∃ order, Explored g D R order next := by
  obtain ⟨order, hx⟩ := hx
  cases hstep with
  | @opened top frame below p e later hpending hfresh hopened =>
    have htrail := hs.seated.trail
    have hleft : AllFollowed R (fun a b => b ∈ order ∨ Reported g p a b) (some e.target)
        (top.leaving later :: below) := AllFollowed.leave hx.followed hpending fun _ => .inr rfl
    exact ⟨order, hx.opened hE rfl hleft hopened htrail
      (hE.handsDown _ _ _ htrail hx.inside hopened.seated.shown.toFits)⟩
  | @referred top below p e later r hpending hvisited hholds htarget =>
    exact ⟨order, hx.referred hE h hs.seated hpending hvisited hholds htarget⟩
  | @tookUp top below p id hpending hleftover =>
    refine ⟨order, { hx with followed := ⟨fun b hb => ?_, hx.followed.2⟩ }⟩
    rcases hx.followed.1 b hb with ⟨e, he, htarget⟩ | hdone
    · exact .inl ⟨e, List.mem_cons_of_mem _ he, htarget⟩
    · exact .inr hdone
  | @closed top parent rest p hpending hleftover =>
    have hclosed := hx.close hpending
    exact ⟨_, { hclosed with }⟩

/-! ## Trees -/

/-- What holds between two trees, of which the resources were closed in some order. -/
def Progress.Explored (g : ResourceGraph) (D : Resource → Prop)
    (R : ResourceId → ResourceId → Prop) (p : Progress) : Prop :=
  ∃ order, Traversal.Explored g D R order ⟨[], p⟩

/-- At the start nothing is closed. -/
theorem start_explored (g : ResourceGraph) (D : Resource → Prop)
    (R : ResourceId → ResourceId → Prop) :
    Progress.Explored g D R { unvisited := typedIds g } := by
  refine ⟨[], fun q hq => absurd hq List.not_mem_nil, .nil,
    fun q hq => absurd hq List.not_mem_nil, fun a ha => absurd ha List.not_mem_nil, ?_, trivial, ?_⟩
  · intro a hknown hvisited
    exact absurd (IdSet.mem_filter.2
      ⟨IdSet.mem_below.2 (ResourceGraph.lt_size_of_isKnown hknown), hknown⟩) hvisited
  · rintro a b ⟨_, _, _, _, _, _, hmem⟩
    cases hmem

/-- Growing a tree prolongs the order. -/
theorem grow_explored (hE : Explores g D R) (h : Sound g) (hp : p.Valid g) (he : Apt g [] e)
    (hfresh : e.target ∈ p.unvisited) (hD : ∀ r, g.Holds r → r.id = e.target → D r)
    (hx : p.Explored g D R) (hgrown : grow g e p = .ok (tree, later)) : later.Explored g D R := by
  obtain ⟨order, hx⟩ := hx
  refine grow_keeps (I := fun s => ∃ order, Explored g D R order s)
    (Q := fun _ later => later.Explored g D R) h hp he hfresh ?_ ?_ ?_ hgrown
  · intro frame hopened
    exact ⟨order, hx.opened hE rfl trivial hopened trivial
      (hD frame.resource hopened.seated.shown.holds hopened.target_eq.symm)⟩
  · intro s next hvalid hx hstep
    exact hstep.explored hE h hvalid hx
  · rintro s tree later hvalid ⟨order, hx⟩ hstep
    cases hstep with
    | @finished top _ hpending hleftover => exact ⟨_, hx.close hpending⟩

/-- So does growing several of them. -/
theorem growEach_explored (hE : Explores g D R) (h : Sound g) (hp : p.Valid g)
    (hids : ∀ id ∈ ids, Apt g [] { target := id })
    (hD : ∀ r, g.Holds r → r.id ∈ ids → D r) (hx : p.Explored g D R)
    (hgrown : growEach g ids p = .ok (trees, later)) : later.Explored g D R := by
  refine growEach_rule (J := fun _ p => p.Explored g D R) [] h hp hids ?_ hgrown hx
  intro id hid done p tree later hp hfresh hx hgrown
  exact grow_explored hE h hp (hids id hid) hfresh (fun r hr hsame =>
    hD r hr (hsame ▸ hid)) hx hgrown

/-- In the end all resources are closed, if the property holds of all that are shown at the top. -/
theorem Phases.explored (ph : Phases g) (hE : Explores g D R) (h : Sound g)
    (hD : ∀ r, g.Holds r → r.kind.isKnown = true → Apt g [] { target := r.id } → D r) :
    ph.atEnd.Explored g D R := by
  refine ph.rule (J := fun _ p => p.Explored g D R) h (start_explored g D R) ?_
  intro id done p tree later hp hapt hfresh hx hgrown
  refine grow_explored hE h hp hapt hfresh (fun r hr hsame => ?_) hx hgrown
  subst hsame
  refine hD r hr ?_ hapt
  rw [← hr.kindOf]
  exact hp.typed r.id hfresh

/-- What a visited resource leads to is visited. -/
theorem Progress.Explored.closed (hx : p.Explored g D R)
    (hknown : (g.kindOf a).isKnown = true) (ha : a ∉ p.unvisited) (hab : R a b) :
    b ∉ p.unvisited := by
  obtain ⟨order, hx⟩ := hx
  rcases hx.found a hknown ha with hclosed | ⟨_, hq, _⟩
  · rcases hx.ordered.leads hclosed hab with hbefore | hback
    · exact hx.visited b hbefore
    · exact hx.backVisited a b hback
  · cases hq

/-! ## Relations that are followed -/

/-- Outside all schemes every narrower concept that is shown there is followed. -/
theorem explores_outside (h : Sound g) : Explores g g.IsOutside
    fun a b => g.Narrower a b ∧ g.shownOutside b = true where
  handsDown := ResourceGraph.isOutside_handsDown h
  known := fun a b hab => by
    rw [(h.linked.narrower_kinds a b hab.1).2]
    rfl
  followed := fun path r htrail houtside b hb => by
    obtain ⟨hconcept, _⟩ := houtside r List.mem_cons_self
    have hnearest : nearestContext? path = none :=
      ResourceGraph.nearestContext?_outside fun q hq => houtside q (List.mem_cons_of_mem _ hq)
    have hnarrower : b ∈ r.links.narrower := by
      rw [← htrail.1.holds.linksOf]
      exact hb.1
    have hbelow : b ∈ g.narrowerIn path r := by
      rw [ResourceGraph.narrowerIn, hnearest]
      exact List.mem_filter.2 ⟨hnarrower, hb.2⟩
    unfold edgesBelow
    rw [hconcept]
    exact ⟨_, List.mem_map_of_mem hbelow, rfl⟩

/-- Every collection in a collection is followed, whether the members have an order or not. -/
theorem mem_memberEdges {r : Resource} {m : ResourceId} (hr : g.Holds r) (hexact : g.OrdersExact)
    (hm : m ∈ r.links.members) (hkind : (g.kindOf m).isCollection = true) :
    ∃ e ∈ memberEdges g r, e.target = m := by
  unfold memberEdges
  by_cases hordered : r.hasOrder = true
  · rw [if_pos hordered]
    obtain ⟨order, horder⟩ := Option.isSome_iff_exists.1 (Bool.and_eq_true_iff.1 hordered).2
    have hlisted : m ∈ order := by
      have hperm := hexact r.id order (by rwa [hr.linksOf])
      rw [hr.linksOf] at hperm
      exact hperm.mem_iff.2 hm
    rw [← List.zipIdx_map_fst 0 order] at hlisted
    obtain ⟨⟨_, position⟩, hmem, rfl⟩ := List.mem_map.1 hlisted
    rw [horder, Option.getD_some]
    exact ⟨_, List.mem_map_of_mem hmem, rfl⟩
  · rw [if_neg hordered]
    have hedge : memberEdge? g (g.contextOf r) m = some { target := m } := by
      unfold memberEdge?
      cases hkind' : g.kindOf m <;> simp_all [Kind.isCollection]
    exact ⟨_, List.mem_filterMap.2 ⟨m, hm, hedge⟩, rfl⟩

theorem explores_nests (h : Sound g) (hexact : g.OrdersExact) :
    Explores g (fun _ => True) g.Nests where
  handsDown := fun _ _ _ _ _ _ => trivial
  known := fun _ _ hab => Kind.isKnown_of_isCollection hab.2
  followed := fun path r htrail _ b hb => by
    have hholds := htrail.1.holds
    have hcollection := h.linked.collection_kind r.id b hb.1
    rw [hholds.kindOf] at hcollection
    have hmember : b ∈ r.links.members := by
      rw [← hholds.linksOf]
      exact hb.1
    have hedges : edgesBelow g path r = memberEdges g r := by
      unfold edgesBelow
      cases hkind : r.kind <;> simp_all [Kind.isCollection]
    rw [hedges]
    exact mem_memberEdges hholds hexact hmember hb.2

end Traversal

end Thesaurus
