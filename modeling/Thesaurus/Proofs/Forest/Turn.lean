import Thesaurus.Proofs.Forest.Opening

/-!
# One turn of a traversal

What a turn does is said once, as a relation. In a sound graph a turn from a stage that keeps the
invariant never fails, it does one of these things, and the stage after it keeps the invariant.

- `Shown`, `Seated`, `Stage.Valid`: the invariant of a node, a frame and a stage.
- `Steps`: the things that a turn can do.
- `turn_steps`: a turn does one of them.
- `Steps.valid`: the stage after it is valid again.
- `run_rule`: what every turn keeps holds when the root is closed.
-/

namespace Thesaurus

namespace Traversal

/-! ## The invariant -/

/-- The resources that are being placed, the innermost first. -/
def pathOf (frames : List Frame) : List Resource :=
  frames.map (·.resource)

/-- What holds of a node that shows a resource at the end of a path. It is flagged as the path
demands. -/
structure Shown (g : ResourceGraph) (path : List Resource) (r : Resource) (e : Entry) : Prop
    extends g.Fits path r where
  view_eq : e.view = r.view
  top_eq : e.topConcept = isTopOn path r.id

/-- What holds of a frame at the end of a path: its node owns a resource of known kind, which is
open as a context if it is a scheme or collection, and all edges still to be followed suit their
places. -/
structure Seated (g : ResourceGraph) (path : List Resource) (f : Frame) : Prop where
  shown : Shown g path f.resource f.entry
  owned : f.entry.reference = false
  known : f.resource.kind.isKnown = true
  opens_eq : f.opens = g.contextOf? f.resource
  pending_apt : ∀ e ∈ f.pending, Apt g (f.resource :: path) e

/-- Each frame is seated on those below it. -/
def AllSeated (g : ResourceGraph) : List Frame → Prop
  | [] => True
  | f :: below => Seated g (pathOf below) f ∧ AllSeated g below

/-- All members of the schemes and collections that are placed completely have been visited. -/
def Settled (g : ResourceGraph) (path : List Resource) (unvisited : IdSet) : Prop :=
  ∀ r, g.Holds r → r.kind.gathers = true → r.id ∉ unvisited → r ∉ path →
    ∀ id ∈ (g.contextOf r).members, id ∉ unvisited

/-- The invariant of a traversal: the frames are seated on each other, what is unvisited has a kind,
and what is closed is complete. -/
structure Stage.Valid (g : ResourceGraph) (s : Stage) : Prop where
  frames_ne : s.frames ≠ []
  seated : AllSeated g s.frames
  typed : ∀ id ∈ s.progress.unvisited, (g.kindOf id).isKnown = true
  settled : Settled g (pathOf s.frames) s.progress.unvisited

/-- A frame as it is right after an edge was followed to a resource. -/
structure Opened (g : ResourceGraph) (path : List Resource) (e : Edge) (f : Frame) : Prop where
  target_eq : e.target = f.resource.id
  seated : Seated g path f
  pending_perm : f.pending.Perm (edgesBelow g path f.resource)
  done_eq : f.done = []

/-- The node of a reference at the end of a path. -/
def referenceTo (path : List Resource) (e : Edge) (r : Resource) : Tree Entry :=
  .leaf
    { view := r.view
      reference := true
      position := e.position
      topConcept := isTopOn path r.id }

/-- The things that a turn can do. An edge leads to a resource that is opened, or to one that was
visited before. Where no edge is left, a context takes up a member that no edge led to, or the frame
is closed: its node becomes a child of the frame around it, or the root is done. -/
inductive Steps (g : ResourceGraph) : Stage → Turn → Prop where
  | opened {top frame : Frame} {below : List Frame} {p : Progress} {e : Edge} {later : List Edge}
      (pending : top.pending = e :: later) (fresh : e.target ∈ p.unvisited)
      (opened : Opened g (pathOf (top :: below)) e frame) :
      Steps g ⟨top :: below, p⟩
        (.next ⟨frame :: top.leaving later :: below, p.visit e.target⟩)
  | referred {top : Frame} {below : List Frame} {p : Progress} {e : Edge} {later : List Edge}
      {r : Resource} (pending : top.pending = e :: later)
      (visited : e.target ∉ p.unvisited) (holds : g.Holds r) (target : e.target = r.id) :
      Steps g ⟨top :: below, p⟩
        (.next ⟨(top.leaving later).add (referenceTo (pathOf (top :: below)) e r) :: below,
          p.refer top.resource r (isOpen (top :: below) e.target)⟩)
  | tookUp {top : Frame} {below : List Frame} {p : Progress} {id : ResourceId}
      (pending : top.pending = []) (leftover : top.leftover? p.unvisited = some id) :
      Steps g ⟨top :: below, p⟩ (.next ⟨top.takeUp id :: below, p⟩)
  | closed {top parent : Frame} {rest : List Frame} {p : Progress} (pending : top.pending = [])
      (leftover : top.leftover? p.unvisited = none) :
      Steps g ⟨top :: parent :: rest, p⟩ (.next ⟨parent.add top.close :: rest, p⟩)
  | finished {top : Frame} {p : Progress} (pending : top.pending = [])
      (leftover : top.leftover? p.unvisited = none) :
      Steps g ⟨[top], p⟩ (.finished top.close p)

variable {g : ResourceGraph} {path : List Resource} {f : Frame} {frames : List Frame}
  {unvisited : IdSet} {e : Edge} {id : ResourceId} {s next : Stage}

/-! ## Frames -/

theorem AllSeated.holds (h : AllSeated g frames) : ∀ q ∈ pathOf frames, g.Holds q := by
  induction frames with
  | nil =>
    intro q hq
    cases hq
  | cons f below ih =>
    intro q hq
    rcases List.mem_cons.1 hq with rfl | hq
    · exact h.1.shown.holds
    · exact ih h.2 q hq

/-- The open contexts are those on the path. -/
theorem AllSeated.openContexts_eq (h : AllSeated g frames) :
    openContexts frames = g.contextsOn (pathOf frames) := by
  induction frames with
  | nil => rfl
  | cons f below ih =>
    show (openContexts below).enter f.opens =
      (g.contextsOn (pathOf below)).enter (g.contextOf? f.resource)
    rw [ih h.2, h.1.opens_eq]

/-- A frame is seated as long as its resource, its node and its context stay the same. -/
theorem Seated.withPending {pending : List Edge} {done : List (Tree Entry)} (h : Seated g path f)
    (hpending : ∀ e ∈ pending, Apt g (f.resource :: path) e) :
    Seated g path { f with pending := pending, done := done } :=
  { h with pending_apt := hpending }

/-- The leftover member of a context is a concept that is declared a member. -/
theorem Seated.leftover (h : Seated g path f) (hid : f.leftover? unvisited = some id) :
    f.resource.kind.gathers = true ∧ id ∈ (g.contextOf f.resource).members ∧
      f.opens = some (g.contextOf f.resource) := by
  obtain ⟨c, hopens, hfound⟩ := Option.bind_eq_some_iff.1 hid
  have hcontext := hopens
  rw [h.opens_eq, ResourceGraph.contextOf?] at hcontext
  split at hcontext
  · next hgathers =>
    cases hcontext
    exact ⟨hgathers, List.mem_of_find?_eq_some hfound, hopens⟩
  · cases hcontext

/-- A context without leftover members is complete. -/
theorem Seated.complete (h : Seated g path f) (hnone : f.leftover? unvisited = none)
    (hgathers : f.resource.kind.gathers = true) :
    ∀ id ∈ (g.contextOf f.resource).members, id ∉ unvisited := by
  have hopens : f.opens = some (g.contextOf f.resource) := by
    rw [h.opens_eq, ResourceGraph.contextOf?, if_pos hgathers]
  rw [Frame.leftover?, hopens] at hnone
  intro id hid
  simpa using List.find?_eq_none.1 hnone id hid

/-- The edge to a leftover member suits its place. -/
theorem Seated.takeUp_apt (h : Sound g) (hf : Seated g path f)
    (hid : f.leftover? unvisited = some id) :
    Apt g (f.resource :: path) { target := id, context := f.opens.map (·.id) } := by
  obtain ⟨hgathers, hmem, hopens⟩ := hf.leftover hid
  obtain ⟨hmember, hconcept⟩ := ResourceGraph.mem_contextOf.1 hmem
  refine apt_of_member h hf.shown.holds hgathers hmember (fun _ => hconcept) ?_
  rw [hopens, if_pos hconcept]
  rfl

/-! ## Turns -/

/-- Following an edge to an unvisited resource opens it. -/
theorem exists_opened (h : Sound g) (hpath : ∀ q ∈ path, g.Holds q) (he : Apt g path e)
    (hkind : (g.kindOf e.target).isKnown = true) :
    ∃ frame, place g (g.contextsOn path) e = .ok frame ∧ Opened g path e frame := by
  obtain ⟨r, hholds, htarget⟩ := ResourceGraph.exists_held h.indexed he.target_lt
  rw [← htarget, hholds.kindOf] at hkind
  have hscope := he.in_scope r hholds htarget
  obtain ⟨pending, hperm, hplaced⟩ := place_ok h hpath hholds hkind he htarget.symm
  refine ⟨_, hplaced, htarget.symm, ?_, hperm, rfl⟩
  exact
    { shown := ⟨he.fits hholds htarget.symm, rfl, rfl⟩
      owned := rfl
      known := hkind
      opens_eq := rfl
      pending_apt := fun e' he' => edgesBelow_apt h hholds hscope (hperm.mem_iff.1 he') }

/-- A turn of a valid stage never fails, and does one of the things that turns can do. -/
theorem turn_steps (rootIri : String) (h : Sound g) (hs : s.Valid g) :
    ∃ t, turn g rootIri s = .ok t ∧ Steps g s t := by
  obtain ⟨frames, p⟩ := s
  cases frames with
  | nil => exact absurd rfl hs.frames_ne
  | cons top below =>
    obtain ⟨hseated, _⟩ := hs.seated
    have hpath := hs.seated.holds
    cases hpending : top.pending with
    | cons e later =>
      have hapt := hseated.pending_apt e (hpending ▸ List.mem_cons_self)
      have hcontexts : openContexts (top.leaving later :: below) =
          g.contextsOn (pathOf (top :: below)) := hs.seated.openContexts_eq
      -- a resource is opened when it is met first, and referred to afterwards
      by_cases hfresh : e.target ∈ p.unvisited
      · obtain ⟨frame, hplaced, hopened⟩ := exists_opened h hpath hapt (hs.typed e.target hfresh)
        refine ⟨_, ?_, .opened hpending hfresh hopened⟩
        simp only [turn, hpending, follow, if_pos hfresh, hcontexts, hplaced]
      · obtain ⟨r, hholds, htarget⟩ := ResourceGraph.exists_held h.indexed hapt.target_lt
        have hreferenced := reference_ok h hpath hholds hapt htarget.symm
        refine ⟨_, ?_, .referred hpending hfresh hholds htarget.symm⟩
        simp only [turn, hpending, follow, if_neg hfresh, hcontexts, hreferenced]
        rfl
    | nil =>
      cases hleftover : top.leftover? p.unvisited with
      | some id =>
        refine ⟨_, ?_, .tookUp hpending hleftover⟩
        simp only [turn, hpending, hleftover]
      | none =>
        cases below with
        | nil =>
          refine ⟨_, ?_, .finished hpending hleftover⟩
          simp only [turn, hpending, hleftover]
        | cons parent rest =>
          refine ⟨_, ?_, .closed hpending hleftover⟩
          simp only [turn, hpending, hleftover]

/-- What is open or unvisited grows, so less has to be complete. -/
theorem Settled.visit (h : Settled g path unvisited) (r : Resource) (hr : g.Holds r) :
    Settled g (r :: path) (unvisited.erase r.id) := by
  intro k hk hgathers hclosed hnotOpen id hmem
  -- the resource that is visited now is on the path, so that it is not asked for
  have hne : k.id ≠ r.id := by
    intro hsame
    exact hnotOpen (hk.eq hr hsame ▸ List.mem_cons_self)
  have hbefore : k.id ∉ unvisited := by
    intro hunvisited
    exact hclosed (IdSet.mem_erase.2 ⟨hunvisited, hne⟩)
  have hcomplete := h k hk hgathers hbefore (fun hmem =>
    hnotOpen (List.mem_cons_of_mem _ hmem)) id hmem
  intro hunvisited
  exact hcomplete (IdSet.mem_erase.1 hunvisited).1

/-- A frame without leftover members can be closed. -/
theorem Settled.close (hf : Seated g path f) (h : Settled g (f.resource :: path) unvisited)
    (hnone : f.leftover? unvisited = none) : Settled g path unvisited := by
  intro k hk hgathers hclosed hnotOpen
  by_cases hsame : k = f.resource
  · subst hsame
    exact hf.complete hnone hgathers
  · refine h k hk hgathers hclosed fun hmem => ?_
    rcases List.mem_cons.1 hmem with heq | hmem
    · exact hsame heq
    · exact hnotOpen hmem

/-- The stage after a turn is valid again. -/
theorem Steps.valid (h : Sound g) (hs : s.Valid g) (hstep : Steps g s (.next next)) :
    next.Valid g := by
  cases hstep with
  | @opened top frame below p e later hpending hfresh hopened =>
    obtain ⟨hseated, hrest⟩ := hs.seated
    -- the edge that is followed is gone, and the others are as apt as before
    have hremaining : Seated g (pathOf below) (top.leaving later) :=
      hseated.withPending fun e' he' =>
        hseated.pending_apt e' (hpending ▸ List.mem_cons_of_mem _ he')
    refine ⟨List.cons_ne_nil _ _, ⟨hopened.seated, hremaining, hrest⟩, ?_, ?_⟩
    · intro id hmem
      exact hs.typed id (IdSet.mem_erase.1 hmem).1
    · show Settled g (frame.resource :: pathOf (top :: below)) (p.unvisited.erase e.target)
      rw [hopened.target_eq]
      exact hs.settled.visit frame.resource hopened.seated.shown.holds
  | @referred top below p e later r hpending hvisited hholds htarget =>
    obtain ⟨hseated, hrest⟩ := hs.seated
    have hremaining : ∀ e' ∈ later, Apt g (top.resource :: pathOf below) e' := fun e' he' =>
      hseated.pending_apt e' (hpending ▸ List.mem_cons_of_mem _ he')
    exact ⟨List.cons_ne_nil _ _, ⟨hseated.withPending hremaining, hrest⟩, hs.typed, hs.settled⟩
  | @tookUp top below p id hpending hleftover =>
    obtain ⟨hseated, hrest⟩ := hs.seated
    have hgrown : ∀ e ∈ (top.takeUp id).pending, Apt g (top.resource :: pathOf below) e := by
      intro e he
      rcases List.mem_cons.1 he with rfl | he
      · exact Seated.takeUp_apt h hseated hleftover
      · exact hseated.pending_apt e he
    exact ⟨List.cons_ne_nil _ _, ⟨hseated.withPending hgrown, hrest⟩, hs.typed, hs.settled⟩
  | @closed top parent rest p hpending hleftover =>
    obtain ⟨hseated, hparentSeated, hrestSeated⟩ := hs.seated
    refine ⟨List.cons_ne_nil _ _, ⟨hparentSeated.withPending hparentSeated.pending_apt,
      hrestSeated⟩, hs.typed, ?_⟩
    exact Settled.close hseated hs.settled hleftover

/-- What every turn keeps holds when the root is closed. -/
theorem run_rule (rootIri : String) {I : Stage → Prop} {Q : Tree Entry → Progress → Prop}
    (h : Sound g)
    (hvalid : ∀ s, I s → s.Valid g)
    (hstep : ∀ s next, I s → Steps g s (.next next) → I next)
    (hlast : ∀ s tree p, I s → Steps g s (.finished tree p) → Q tree p) (hs : I s) :
    ∃ tree p, run g rootIri s = .ok (tree, p) ∧ Q tree p := by
  -- by induction on the turns, of which none fails since the invariant implies validity
  fun_induction run g rootIri s with
  | case1 s d hfailed =>
    obtain ⟨t, hturned, _⟩ := turn_steps rootIri h (hvalid s hs)
    rw [hturned] at hfailed
    cases hfailed
  | case2 s tree p hfinished =>
    obtain ⟨t, hturned, hsteps⟩ := turn_steps rootIri h (hvalid s hs)
    rw [hturned] at hfinished
    cases hfinished
    exact ⟨tree, p, rfl, hlast s tree p hs hsteps⟩
  | case3 s later hturned ih =>
    obtain ⟨t, hturned', hsteps⟩ := turn_steps rootIri h (hvalid s hs)
    rw [hturned] at hturned'
    cases hturned'
    exact ih (hstep s later hs hsteps)

end Traversal

end Thesaurus
