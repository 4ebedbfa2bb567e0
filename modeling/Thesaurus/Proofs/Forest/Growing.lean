import Thesaurus.Proofs.Forest.Placed

/-!
# Growing trees

In a sound graph a tree can be grown from every unvisited resource that can be shown at the top, and
so can several trees, one after the other.

- `Progress.Valid`: what holds between two trees.
- `IsRootOf`: whether a tree owns a resource at its root.
- `Planted`, `Grown`: what growing trees achieves, and what growing them from given resources does.
- `grow_rule`, `grow_keeps`, `growEach_rule`, `promote_rule`: what every turn or every tree keeps
  holds at the end.
- `exists_grow`, `exists_growEach`, `exists_promote`: growing trees never fails.
-/

namespace Thesaurus

namespace Traversal

/-- What holds of the progress between two trees: what is unvisited has a kind, and all schemes and
collections that are visited are complete. -/
structure Progress.Valid (g : ResourceGraph) (p : Progress) : Prop where
  typed : ∀ id ∈ p.unvisited, (g.kindOf id).isKnown = true
  settled : Settled g [] p.unvisited

/-- Whether a tree owns the resource with the given id at its root. -/
structure IsRootOf (g : ResourceGraph) (t : Tree Entry) (id : ResourceId) : Prop where
  shows : ∃ r, g.Holds r ∧ r.id = id ∧ t.value.view = r.view
  owned : t.value.reference = false

/-- What growing trees achieves: more trees can be grown, the trees are placed, each of them owns
what was unvisited, and what is visited now is owned. -/
structure Planted (g : ResourceGraph) (p : Progress) (trees : Forest) (later : Progress) :
    Prop where
  valid : later.Valid g
  placed : ∀ t ∈ trees, Placed g [] t
  rooted : ∀ t ∈ trees, ∃ id ∈ p.unvisited, IsRootOf g t id
  fewer : ∀ id ∈ later.unvisited, id ∈ p.unvisited
  covered : g.PrintsApart →
    (Forest.ownedViews trees ++ unvisitedViews g later).Perm (unvisitedViews g p)

variable {g : ResourceGraph} {p later last : Progress} {trees more done : Forest}
  {tree : Tree Entry} {e : Edge} {ids rest : List ResourceId} {s next : Stage}

theorem Planted.none (h : p.Valid g) : Planted g p [] p where
  valid := h
  placed := fun t ht => absurd ht List.not_mem_nil
  rooted := fun t ht => absurd ht List.not_mem_nil
  fewer := fun _ hid => hid
  covered := fun _ => by
    rw [Forest.ownedViews_nil]
    exact List.Perm.refl _

theorem Planted.append (h : Planted g p trees later) (h' : Planted g later more last) :
    Planted g p (trees ++ more) last where
  valid := h'.valid
  placed := fun t ht => by
    rcases List.mem_append.1 ht with ht | ht
    · exact h.placed t ht
    · exact h'.placed t ht
  rooted := fun t ht => by
    rcases List.mem_append.1 ht with ht | ht
    · exact h.rooted t ht
    · obtain ⟨id, hid, hroot⟩ := h'.rooted t ht
      exact ⟨id, h.fewer id hid, hroot⟩
  fewer := fun id hid => h.fewer id (h'.fewer id hid)
  covered := fun hapart => by
    rw [Forest.ownedViews_append, List.append_assoc]
    exact ((h'.covered hapart).append_left _).trans (h.covered hapart)

/-- What growing trees from the given resources achieves: all of them are visited, and each tree
owns one of them at its root. -/
structure Grown (g : ResourceGraph) (ids : List ResourceId) (p : Progress) (trees : Forest)
    (later : Progress) : Prop extends Planted g p trees later where
  grown : growEach g ids p = .ok (trees, later)
  visited : ∀ id ∈ ids, id ∉ later.unvisited
  chosen : ∀ t ∈ trees, ∃ id ∈ ids, IsRootOf g t id

/-! ## One tree -/

/-- No turn makes anything unvisited. -/
theorem Steps.fewer (hstep : Steps g s (.next next)) :
    ∀ id ∈ next.progress.unvisited, id ∈ s.progress.unvisited := by
  intro id hid
  cases hstep with
  | opened hpending hfresh hopened => exact (IdSet.mem_erase.1 hid).1
  | referred => exact hid
  | tookUp => exact hid
  | closed => exact hid

/-- No turn changes the outermost frame's resource. -/
theorem Steps.outermost (hstep : Steps g s (.next next)) :
    (pathOf next.frames).getLast? = (pathOf s.frames).getLast? := by
  cases hstep with
  | opened hpending hfresh hopened => exact List.getLast?_cons_cons
  | referred => rfl
  | tookUp => rfl
  | closed => exact List.getLast?_cons_cons.symm

/-- What is not visited is shown with different IRIs. -/
theorem Progress.Valid.nodup_iris (h : Sound g) (hp : p.Valid g) (hapart : g.PrintsApart) :
    ((unvisitedViews g p).map (·.iri)).Nodup := by
  exact hapart.nodup_iris h.indexed p.unvisited.nodup fun id hid =>
    ResourceGraph.lt_size_of_isKnown (hp.typed id hid)

/-- The stage in which a tree starts to grow is valid. -/
theorem Opened.valid {frame : Frame} (hp : p.Valid g) (hopened : Opened g [] e frame) :
    Stage.Valid g ⟨[frame], p.visit e.target⟩ := by
  refine ⟨List.cons_ne_nil _ _, ⟨hopened.seated, trivial⟩, ?_, ?_⟩
  · intro id hid
    exact hp.typed id (IdSet.mem_erase.1 hid).1
  · show Settled g [frame.resource] (p.unvisited.erase e.target)
    rw [hopened.target_eq]
    exact hp.settled.visit frame.resource hopened.seated.shown.holds

/-- A tree can be grown from every unvisited resource that can be shown at the top, and what every
turn keeps holds when it is done. -/
theorem grow_rule {I : Stage → Prop} {Q : Tree Entry → Progress → Prop} (h : Sound g)
    (hp : p.Valid g) (he : Apt g [] e) (hfresh : e.target ∈ p.unvisited)
    (hstart : ∀ frame, Opened g [] e frame → I ⟨[frame], p.visit e.target⟩)
    (hstep : ∀ s next, s.Valid g → I s → Steps g s (.next next) → I next)
    (hlast : ∀ s tree later, s.Valid g → I s → Steps g s (.finished tree later) → Q tree later) :
    ∃ tree later, grow g e p = .ok (tree, later) ∧ Q tree later := by
  have hnoPath : ∀ q ∈ ([] : List Resource), g.Holds q := fun q hq => absurd hq List.not_mem_nil
  obtain ⟨frame, hplaced, hopened⟩ := exists_opened h hnoPath he (hp.typed e.target hfresh)
  obtain ⟨tree, later, hran, hreached⟩ := run_rule (I := fun s => s.Valid g ∧ I s) frame.entry.iri h
    (fun _ hs => hs.1) (fun s next hs hsteps => ⟨hsteps.valid h hs.1,
      hstep s next hs.1 hs.2 hsteps⟩)
    (fun s tree later hs hsteps => hlast s tree later hs.1 hs.2 hsteps)
    ⟨hopened.valid hp, hstart frame hopened⟩
  refine ⟨tree, later, ?_, hreached⟩
  have hcontexts : g.contextsOn [] = openContexts [] := rfl
  rw [hcontexts] at hplaced
  rw [grow, hplaced]
  exact hran

/-- What every turn keeps holds of a tree that was grown. -/
theorem grow_keeps {I : Stage → Prop} {Q : Tree Entry → Progress → Prop} (h : Sound g)
    (hp : p.Valid g) (he : Apt g [] e) (hfresh : e.target ∈ p.unvisited)
    (hstart : ∀ frame, Opened g [] e frame → I ⟨[frame], p.visit e.target⟩)
    (hstep : ∀ s next, s.Valid g → I s → Steps g s (.next next) → I next)
    (hlast : ∀ s tree later, s.Valid g → I s → Steps g s (.finished tree later) → Q tree later)
    (hgrown : grow g e p = .ok (tree, later)) : Q tree later := by
  obtain ⟨tree', later', hgrown', hreached⟩ := grow_rule h hp he hfresh hstart hstep hlast
  rw [hgrown] at hgrown'
  cases hgrown'
  exact hreached

/-- The stage in which a tree starts to grow is faithful. -/
theorem Opened.stageFaithful {frame : Frame} (hfresh : e.target ∈ p.unvisited)
    (hopened : Opened g [] e frame) :
    Stage.Faithful g (unvisitedViews g p) ⟨[frame], p.visit e.target⟩ :=
  ⟨⟨hopened.faithful, trivial⟩, fun _ => hopened.covered hfresh []⟩

/-- The tree that is grown owns what it is grown from, and what is visited now. -/
theorem exists_grow (h : Sound g) (hp : p.Valid g) (he : Apt g [] e)
    (hfresh : e.target ∈ p.unvisited) :
    ∃ tree later, grow g e p = .ok (tree, later) ∧ Planted g p [tree] later ∧
      e.target ∉ later.unvisited ∧ IsRootOf g tree e.target := by
  have htotal := fun hapart => hp.nodup_iris h hapart
  -- the invariant: the stage is faithful, the root stays visited and outermost
  refine grow_rule (I := fun s => s.Faithful g (unvisitedViews g p) ∧
    (∀ id ∈ s.progress.unvisited, id ∈ p.unvisited.erase e.target) ∧
    ∀ r ∈ (pathOf s.frames).getLast?, r.id = e.target) h hp he hfresh ?_ ?_ ?_
  · intro frame hopened
    refine ⟨hopened.stageFaithful hfresh, fun _ hid => hid, ?_⟩
    rintro r ⟨⟩
    exact hopened.target_eq.symm
  · rintro s next hvalid ⟨hfaithful, hfewer, houtermost⟩ hstep
    refine ⟨hstep.faithful h hvalid hfaithful htotal, fun id hid =>
      hfewer id (hstep.fewer id hid), ?_⟩
    rw [hstep.outermost]
    exact houtermost
  · rintro s tree later hvalid ⟨hfaithful, hfewer, houtermost⟩ hstep
    obtain ⟨htreePlaced, hsettled, hcovered⟩ := hstep.finished_spec h hvalid hfaithful htotal
    have hroot : s.progress = later ∧ IsRootOf g tree e.target := by
      cases hstep with
      | @finished top _ hpending hleftover =>
        obtain ⟨hseated, _⟩ := hvalid.seated
        exact ⟨rfl, ⟨top.resource, hseated.shown.holds, houtermost top.resource rfl,
          hseated.shown.view_eq⟩, hseated.owned⟩
    obtain ⟨rfl, hroot⟩ := hroot
    refine ⟨⟨⟨hvalid.typed, hsettled⟩, ?_, ?_, ?_, hcovered⟩, ?_, hroot⟩
    · intro t ht
      rw [List.mem_singleton.1 ht]
      exact htreePlaced
    · intro t ht
      rw [List.mem_singleton.1 ht]
      exact ⟨e.target, hfresh, hroot⟩
    · intro id hid
      exact (IdSet.mem_erase.1 (hfewer id hid)).1
    · intro hid
      exact (IdSet.mem_erase.1 (hfewer _ hid)).2 rfl

/-- What a tree that was grown is like. -/
theorem grow_planted (h : Sound g) (hp : p.Valid g) (he : Apt g [] e)
    (hfresh : e.target ∈ p.unvisited) (hgrown : grow g e p = .ok (tree, later)) :
    Planted g p [tree] later := by
  obtain ⟨tree', later', hgrown', hplanted, _⟩ := exists_grow h hp he hfresh
  rw [hgrown] at hgrown'
  cases hgrown'
  exact hplanted

/-! ## Several trees -/

/-- Trees can be grown from resources that can be shown at the top. -/
theorem exists_growEach (h : Sound g) (hp : p.Valid g)
    (hids : ∀ id ∈ ids, Apt g [] { target := id }) :
    ∃ trees later, Grown g ids p trees later := by
  -- by induction on the ids, of which some are visited before it is their turn
  induction ids generalizing p with
  | nil =>
    exact ⟨[], p, .none hp, rfl, fun id hid => absurd hid List.not_mem_nil,
      fun t ht => absurd ht List.not_mem_nil⟩
  | cons id rest ih =>
    have hrestApt : ∀ id ∈ rest, Apt g [] { target := id } := fun id hid =>
      hids id (List.mem_cons_of_mem _ hid)
    by_cases hfresh : id ∈ p.unvisited
    · obtain ⟨tree, p₁, hfirst, hplanted, hvisited, hroot⟩ :=
        exists_grow h hp (hids id List.mem_cons_self) hfresh
      obtain ⟨trees, p₂, hothers⟩ := ih hplanted.valid hrestApt
      refine ⟨tree :: trees, p₂, hplanted.append hothers.toPlanted, ?_, ?_, ?_⟩
      · simp only [growEach, if_pos hfresh, hfirst, hothers.grown]
      · intro other hother
        rcases List.mem_cons.1 hother with rfl | hother
        · exact fun hid => hvisited (hothers.fewer _ hid)
        · exact hothers.visited other hother
      · intro t ht
        rcases List.mem_cons.1 ht with rfl | ht
        · exact ⟨id, List.mem_cons_self, hroot⟩
        · obtain ⟨other, hother, hotherRoot⟩ := hothers.chosen t ht
          exact ⟨other, List.mem_cons_of_mem _ hother, hotherRoot⟩
    · obtain ⟨trees, p₁, hothers⟩ := ih hp hrestApt
      refine ⟨trees, p₁, hothers.toPlanted, ?_, ?_, ?_⟩
      · rw [growEach, if_neg hfresh, hothers.grown]
      · intro other hother
        rcases List.mem_cons.1 hother with rfl | hother
        · exact fun hid => hfresh (hothers.fewer _ hid)
        · exact hothers.visited other hother
      · intro t ht
        obtain ⟨other, hother, hotherRoot⟩ := hothers.chosen t ht
        exact ⟨other, List.mem_cons_of_mem _ hother, hotherRoot⟩

/-- Trees that are grown from one list of resources and then from another are grown from both. -/
theorem growEach_append (hfirst : growEach g ids p = .ok (trees, later))
    (hsecond : growEach g rest later = .ok (more, last)) :
    growEach g (ids ++ rest) p = .ok (trees ++ more, last) := by
  induction ids generalizing p trees with
  | nil =>
    cases hfirst
    exact hsecond
  | cons id others ih =>
    rw [growEach] at hfirst
    rw [List.cons_append, growEach]
    split at hfirst
    · next hfresh =>
      rw [if_pos hfresh]
      split at hfirst
      · cases hfirst
      · next tree p₁ hgrown =>
        split at hfirst
        · cases hfirst
        · next trees' p₂ hgrownOthers =>
          cases hfirst
          simp only [ih hgrownOthers, List.cons_append]
    · next hvisited =>
      rw [if_neg hvisited]
      exact ih hfirst

/-- What each tree keeps holds when several have grown. -/
theorem growEach_rule {J : Forest → Progress → Prop} (done : Forest) (h : Sound g) (hp : p.Valid g)
    (hids : ∀ id ∈ ids, Apt g [] { target := id })
    (hone : ∀ id ∈ ids, ∀ done p tree later, p.Valid g → id ∈ p.unvisited → J done p →
      grow g { target := id } p = .ok (tree, later) → J (done ++ [tree]) later)
    (hgrown : growEach g ids p = .ok (trees, later)) (hJ : J done p) : J (done ++ trees) later := by
  -- by induction on the ids, with the trees that are there already
  induction ids generalizing p trees done with
  | nil =>
    cases hgrown
    rwa [List.append_nil]
  | cons id rest ih =>
    have hrestApt : ∀ id ∈ rest, Apt g [] { target := id } := fun id hid =>
      hids id (List.mem_cons_of_mem _ hid)
    have hrestOne := fun id hid => hone id (List.mem_cons_of_mem _ hid)
    rw [growEach] at hgrown
    split at hgrown
    · next hfresh =>
      split at hgrown
      · cases hgrown
      · next tree p₁ hfirst =>
        split at hgrown
        · cases hgrown
        · next trees' p₂ hgrownRest =>
          cases hgrown
          have hplanted := grow_planted h hp (hids id List.mem_cons_self) hfresh hfirst
          have hkept := hone id List.mem_cons_self done p tree p₁ hp hfresh hJ hfirst
          have hall := ih (done ++ [tree]) hplanted.valid hrestApt hrestOne hgrownRest hkept
          rwa [List.append_assoc] at hall
    · exact ih done hp hrestApt hrestOne hgrown hJ

/-- Trees can be grown until nothing is unvisited. -/
theorem exists_promote (h : Sound g) (hp : p.Valid g)
    (hids : ∀ id ∈ p.unvisited, Apt g [] { target := id }) :
    ∃ trees later, promote g p = .ok (trees, later) ∧ Planted g p trees later ∧
      later.unvisited.toList = [] := by
  -- by induction on the rounds; the two that fail are no rounds of a valid progress
  fun_induction promote g p with
  | case1 p hnone => exact ⟨[], p, rfl, .none hp, hnone⟩
  | case2 p id rest hfirst d hfailed =>
    have hfresh : id ∈ p.unvisited := IdSet.mem_def.2 (hfirst ▸ List.mem_cons_self)
    obtain ⟨tree, later, hgrown, _⟩ := exists_grow h hp (hids id hfresh) hfresh
    rw [hgrown] at hfailed
    cases hfailed
  | case3 p id rest hfirst tree later hgrown d hfailed ih =>
    have hfresh : id ∈ p.unvisited := IdSet.mem_def.2 (hfirst ▸ List.mem_cons_self)
    have hplanted := grow_planted h hp (hids id hfresh) hfresh hgrown
    obtain ⟨trees, last, hpromoted, _⟩ :=
      ih hplanted.valid fun id hid => hids id (hplanted.fewer id hid)
    rw [hpromoted] at hfailed
    cases hfailed
  | case4 p id rest hfirst tree later hgrown trees last hpromoted ih =>
    have hfresh : id ∈ p.unvisited := IdSet.mem_def.2 (hfirst ▸ List.mem_cons_self)
    have hplanted := grow_planted h hp (hids id hfresh) hfresh hgrown
    obtain ⟨trees', last', hpromoted', hplantedRest, hnone⟩ :=
      ih hplanted.valid fun id hid => hids id (hplanted.fewer id hid)
    rw [hpromoted] at hpromoted'
    cases hpromoted'
    exact ⟨tree :: trees, last, rfl, hplanted.append hplantedRest, hnone⟩

/-- What each tree keeps holds when trees have grown from all that was left. -/
theorem promote_rule {J : Forest → Progress → Prop} (h : Sound g) (hp : p.Valid g)
    (hids : ∀ id ∈ p.unvisited, Apt g [] { target := id })
    (hone : ∀ id done p tree later, p.Valid g → Apt g [] { target := id } → id ∈ p.unvisited →
      J done p → grow g { target := id } p = .ok (tree, later) → J (done ++ [tree]) later)
    (hpromoted : promote g p = .ok (trees, later)) (hJ : J done p) : J (done ++ trees) later := by
  fun_induction promote g p generalizing done trees with
  | case1 p hnone =>
    cases hpromoted
    rwa [List.append_nil]
  | case2 p id rest hfirst d hfailed => cases hpromoted
  | case3 p id rest hfirst tree later hgrown d hfailed ih => cases hpromoted
  | case4 p id rest hfirst tree later hgrown trees' last hrounds ih =>
    cases hpromoted
    have hfresh : id ∈ p.unvisited := IdSet.mem_def.2 (hfirst ▸ List.mem_cons_self)
    have hplanted := grow_planted h hp (hids id hfresh) hfresh hgrown
    have hkept := hone id done p tree later hp (hids id hfresh) hfresh hJ hgrown
    have hall := ih hplanted.valid (fun id hid => hids id (hplanted.fewer id hid)) hrounds hkept
    rwa [List.append_assoc] at hall

end Traversal

end Thesaurus
