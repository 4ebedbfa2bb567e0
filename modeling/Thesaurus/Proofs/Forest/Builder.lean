import Thesaurus.Forest.Builder
import Thesaurus.Proofs.Forest.Promotion
import Thesaurus.Proofs.Forest.Recursion

/-!
# The tables of the forest builder

The tables of the builder tell what can be read off its open frames: a resource is active just if
it has a frame, and a context is found just if a frame opened it. So the builder does what the
traversal does that keeps no tables.

- `Builder.Tracks`: the invariant, with `Builder.Tracks.enter` and `Builder.Tracks.leave`.
- `Builder.turn_follows`: one turn of both.
- `Builder.run_forgets`: both runs.
- `Builder.build_eq`: both forests.
-/

namespace Thesaurus

namespace Builder

open Traversal (Edge Frame Progress isOpen openContexts place plan)

variable {g : ResourceGraph} {st : Stage} {frames below : List Frame} {f f' top : Frame} {s : State}
  {e : Edge} {id : ResourceId} {rootIri : String}

/-! ## The invariant -/

/-- The tables are those of the open frames. Each frame is of a resource of its own, which is
visited and gives its id to the context that the frame opened. -/
structure Tracks (frames : List Frame) (s : State) : Prop where
  active_iff : ∀ id, id ∈ s.active ↔ isOpen frames id = true
  contexts_eq : s.contexts.get? = openContexts frames
  nodup : (frames.map (·.resource.id)).Nodup
  visited : ∀ f ∈ frames, f.resource.id ∉ s.progress.unvisited
  opens_id : ∀ f ∈ frames, ∀ c, f.opens = some c → c.id = f.resource.id

theorem isOpen_iff : isOpen frames id = true ↔ id ∈ frames.map (·.resource.id) := by
  simp [isOpen]

/-- A context has the id of its scheme or collection. -/
theorem id_of_context {r : Resource} {c : Context} (h : Context.of g r = .ok c) : c.id = r.id := by
  unfold Context.of at h
  split at h
  case h_4 | h_5 => cases h
  all_goals
    split at h
    · cases h
    · cases h
      rfl

/-- A plan opens the planned resource, if anything. -/
theorem id_of_plan {contexts : OpenContexts} {r : Resource} {planned : Traversal.Plan} {c : Context}
    (h : plan g contexts e r = .ok planned) (hopens : planned.opens = some c) : c.id = r.id := by
  have hcontext {entry : Entry} (hplan : Traversal.contextPlan g r entry = .ok planned) :
      c.id = r.id := by
    unfold Traversal.contextPlan at hplan
    split at hplan
    · cases hplan
    · next c' hc' =>
      split at hplan
      · cases hplan
      · cases hplan
        cases hopens
        exact id_of_context hc'
  have hconcept {entry : Entry} (hplan : Traversal.conceptPlan g contexts e r entry = .ok planned) :
      planned.opens = none := by
    unfold Traversal.conceptPlan at hplan
    split at hplan
    all_goals
      split at hplan
      · cases hplan
      · cases hplan
        rfl
  -- concepts open no context, and resources of the other kinds their own
  unfold plan at h
  cases hkind : r.kind <;> rw [hkind] at h
  case unknown => cases h
  case concept =>
    rw [hconcept h] at hopens
    cases hopens
  all_goals exact hcontext h

/-- What is placed is the resource that the edge leads to. -/
theorem place_spec {contexts : OpenContexts} (h : Indexed g)
    (hplaced : place g contexts e = .ok f) :
    f.resource.id = e.target ∧ ∀ c, f.opens = some c → c.id = f.resource.id := by
  unfold place ResourceGraph.resource at hplaced
  cases hr : g.resources[e.target]? with
  | none => simp [hr] at hplaced
  | some r =>
    rw [hr] at hplaced
    dsimp only at hplaced
    split at hplaced
    · cases hplaced
    · next planned hplan =>
      split at hplaced
      · cases hplaced
      · cases hplaced
        exact ⟨h.id_eq _ r hr, fun c hopens => id_of_plan hplan hopens⟩

namespace Tracks

/-- Contexts are found by the ids of the frames that opened them. -/
theorem openContexts_eq_none (hopens : ∀ f ∈ frames, ∀ c, f.opens = some c → c.id = f.resource.id)
    (hid : id ∉ frames.map (·.resource.id)) : openContexts frames id = none := by
  induction frames with
  | nil => rfl
  | cons f below ih =>
    rw [List.map_cons, List.mem_cons, not_or] at hid
    have hbelow := ih (fun f hf => hopens f (List.mem_cons_of_mem _ hf)) hid.2
    rw [openContexts]
    cases hf : f.opens with
    | none => exact hbelow
    | some c =>
      have hc := hopens f List.mem_cons_self c hf
      exact (if_neg (hc ▸ hid.1)).trans hbelow

/-- A builder that is between two trees has empty tables. -/
theorem nil (hactive : s.active = ∅) (hcontexts : s.contexts = ∅) : Tracks [] s where
  active_iff := fun id => by simp [hactive, isOpen]
  contexts_eq := by
    rw [hcontexts]
    rfl
  nodup := List.nodup_nil
  visited := fun _ hf => absurd hf List.not_mem_nil
  opens_id := fun _ hf => absurd hf List.not_mem_nil

/-- Only the resource of a frame and what it opened matter. -/
theorem retop (h : Tracks (f :: below) s) (hresource : f'.resource = f.resource)
    (hopens : f'.opens = f.opens) : Tracks (f' :: below) s where
  active_iff := fun id => by
    rw [h.active_iff, isOpen_iff, isOpen_iff, List.map_cons, List.map_cons, hresource]
  contexts_eq := by rw [h.contexts_eq, openContexts, openContexts, hopens]
  nodup := by
    rw [List.map_cons, hresource]
    exact h.nodup
  visited := List.forall_mem_cons.2 ⟨hresource ▸ h.visited f List.mem_cons_self, fun f hf =>
    h.visited f (List.mem_cons_of_mem _ hf)⟩
  opens_id := List.forall_mem_cons.2 ⟨hresource ▸ hopens ▸ h.opens_id f List.mem_cons_self,
    fun f hf => h.opens_id f (List.mem_cons_of_mem _ hf)⟩

/-- A resource that is opened is entered into the tables. -/
theorem enter (h : Tracks frames s) (hf : f.resource.id = e.target)
    (hopens : ∀ c, f.opens = some c → c.id = f.resource.id)
    (hfresh : e.target ∈ s.progress.unvisited) : Tracks (f :: frames) (s.enter e.target f) where
  active_iff := fun id => by
    show id ∈ s.active.insert e.target ↔ _
    rw [IdSet.mem_insert, h.active_iff, isOpen_iff, isOpen_iff, List.map_cons, List.mem_cons, hf]
  contexts_eq := by
    show (f.opens.elim s.contexts fun c => s.contexts.insert c.id c).get? = _
    rw [openContexts, ← h.contexts_eq]
    cases f.opens with
    | none => rfl
    | some c => exact funext fun id => Table.get?_insert
  nodup := by
    -- what has a frame is visited already
    have hnew : f.resource.id ∉ frames.map (·.resource.id) := fun hmem => by
      obtain ⟨k, hk, hid⟩ := List.mem_map.1 hmem
      exact h.visited k hk (hid.trans hf ▸ hfresh)
    exact List.nodup_cons.2 ⟨hnew, h.nodup⟩
  visited := fun k hk hmem => by
    obtain ⟨hunvisited, hne⟩ := IdSet.mem_erase.1 hmem
    rcases List.mem_cons.1 hk with rfl | hk
    · exact hne hf
    · exact h.visited k hk hunvisited
  opens_id := List.forall_mem_cons.2 ⟨hopens, h.opens_id⟩

/-- A frame that is closed is taken out of the tables. -/
theorem leave (h : Tracks (f :: below) s) : Tracks below (s.leave f) := by
  obtain ⟨hnew, hnodup⟩ := List.nodup_cons.1 h.nodup
  refine ⟨fun id => ?_, ?_, hnodup, fun k hk => h.visited k (List.mem_cons_of_mem _ hk), fun k hk =>
    h.opens_id k (List.mem_cons_of_mem _ hk)⟩
  · show id ∈ s.active.erase f.resource.id ↔ _
    rw [IdSet.mem_erase, h.active_iff, isOpen_iff, isOpen_iff, List.map_cons, List.mem_cons]
    constructor
    · exact fun ⟨hmem, hne⟩ => hmem.resolve_left hne
    · refine fun hmem => ⟨.inr hmem, ?_⟩
      rintro rfl
      exact hnew hmem
  · show (f.opens.elim s.contexts fun c => s.contexts.erase c.id).get? = _
    -- a context is erased under the id under which it was entered
    have hcontexts := h.contexts_eq
    rw [openContexts] at hcontexts
    cases hf : f.opens with
    | none => rwa [hf] at hcontexts
    | some c =>
      funext id
      rw [hf] at hcontexts
      rw [Option.elim_some, Table.get?_erase, hcontexts]
      by_cases hid : id = c.id
      · -- the contexts below have other ids
        have hc := h.opens_id f List.mem_cons_self c hf
        rw [if_pos hid, openContexts_eq_none (fun k hk => h.opens_id k (List.mem_cons_of_mem _ hk))]
        rwa [hid, hc]
      · rw [if_neg hid]
        exact if_neg hid

/-- A reference changes no table. -/
theorem refer {parent target : Resource} (h : Tracks frames s) :
    Tracks frames (s.refer parent target e) :=
  ⟨h.active_iff, h.contexts_eq, h.nodup, h.visited, h.opens_id⟩

theorem decide_active (h : Tracks frames s) : decide (id ∈ s.active) = isOpen frames id :=
  Bool.eq_iff_iff.2 (decide_eq_true_iff.trans (h.active_iff id))

/-- A leftover member is looked for in the context of the frame. -/
theorem leftover?_eq (h : Tracks (f :: below) s) :
    s.leftover? f = f.leftover? s.progress.unvisited := by
  unfold State.leftover? Traversal.Frame.leftover?
  cases hf : f.opens with
  | none => rfl
  | some c =>
    rw [Option.bind_some, h.contexts_eq, openContexts, hf]
    show ((if c.id = c.id then some c else _).bind _) = _
    rw [if_pos rfl, Option.bind_some]

end Tracks

/-! ## One turn -/

/-- What a turn of the builder leads to is what one leads to without tables, and the tables still
tell what is open. -/
inductive Follows : Except Defect Turn → Except Defect Traversal.Turn → Prop where
  | error (d : Defect) : Follows (.error d) (.error d)
  | next (s : Stage) (htracks : Tracks s.frames s.state) :
    Follows (.ok (.next s)) (.ok (.next s.bare))
  | finished (tree : Tree Entry) (s : State) (htracks : Tracks [] s) :
    Follows (.ok (.finished tree s)) (.ok (.finished tree s.progress))

theorem turn_follows (h : Indexed g) (rootIri : String) (ht : Tracks st.frames st.state) :
    Follows (turn g rootIri st) (Traversal.turn g rootIri st.bare) := by
  obtain ⟨frames, s⟩ := st
  unfold turn Traversal.turn Stage.bare
  cases frames with
  | nil => exact .error _
  | cons top below =>
    dsimp only
    -- the tables answer as the frames do, so that both turns go the same way
    cases hp : top.pending with
    | cons e later =>
      have hleaving : Tracks (top.leaving later :: below) s := ht.retop rfl rfl
      dsimp only
      unfold follow Traversal.follow
      rw [hleaving.contexts_eq]
      by_cases hfresh : e.target ∈ s.progress.unvisited
      · rw [if_pos hfresh, if_pos hfresh]
        cases hplaced : place g (openContexts (top.leaving later :: below)) e with
        | error d => exact .error d
        | ok f =>
          obtain ⟨hf, hopens⟩ := place_spec h hplaced
          exact .next ⟨_, s.enter e.target f⟩ (hleaving.enter hf hopens hfresh)
      · rw [if_neg hfresh, if_neg hfresh, ← hleaving.decide_active]
        cases Traversal.reference g (openContexts (top.leaving later :: below)) e with
        | error d => exact .error d
        | ok found => exact .next ⟨_, s.refer _ _ e⟩ (hleaving.refer.retop rfl rfl)
    | nil =>
      dsimp only
      rw [ht.leftover?_eq]
      cases top.leftover? s.progress.unvisited with
      | some id => exact .next ⟨_, s⟩ (ht.retop rfl rfl)
      | none =>
        have hleft : Tracks below (s.leave top) := ht.leave
        cases below with
        | nil => exact .finished _ (s.leave top) hleft
        | cons parent rest => exact .next ⟨_, s.leave top⟩ (hleft.retop rfl rfl)

/-! ## Runs -/

/-- A builder comes to what is come to without tables, and its tables are empty then. -/
def Forgets {α : Type} (result : Except Defect (α × State))
    (bare : Except Defect (α × Progress)) : Prop :=
  bare = result.map (fun (a, s) => (a, s.progress)) ∧ ∀ a s, result = .ok (a, s) → Tracks [] s

theorem Forgets.error {α : Type} (d : Defect) :
    Forgets (.error d : Except Defect (α × State)) (.error d) :=
  ⟨rfl, fun _ _ hs => by cases hs⟩

theorem Forgets.ok {α : Type} {s : State} (a : α) (h : Tracks [] s) :
    Forgets (.ok (a, s)) (.ok (a, s.progress)) :=
  ⟨rfl, fun _ _ hs => by cases hs; exact h⟩

/-- Both runs take the same turns. -/
theorem run_forgets (h : Indexed g) (ht : Tracks st.frames st.state) :
    Forgets (run g rootIri st) (Traversal.run g rootIri st.bare) := by
  -- by the recursion of the run; a turn of one is a turn of the other
  rw [Traversal.run_eq]
  have hfollows := turn_follows h rootIri ht
  generalize Traversal.turn g rootIri st.bare = bare at hfollows ⊢
  fun_induction run g rootIri st generalizing bare with
  | case1 st d hturn =>
    rw [hturn] at hfollows
    cases hfollows
    exact .error d
  | case2 st tree last hturn =>
    rw [hturn] at hfollows
    cases hfollows with
    | finished _ _ htracks => exact .ok tree htracks
  | case3 st later hturn ih =>
    rw [hturn] at hfollows
    cases hfollows with
    | next _ htracks =>
      dsimp only
      rw [Traversal.run_eq]
      exact ih htracks _ (turn_follows h rootIri htracks)

/-- Both grow the same tree. -/
theorem grow_forgets (h : Indexed g) (ht : Tracks [] s) (hfresh : e.target ∈ s.progress.unvisited) :
    Forgets (grow g e s) (Traversal.grow g e s.progress) := by
  unfold grow Traversal.grow
  rw [ht.contexts_eq]
  cases hplaced : place g (openContexts []) e with
  | error d => exact .error d
  | ok f =>
    obtain ⟨hf, hopens⟩ := place_spec h hplaced
    exact run_forgets h (ht.enter hf hopens hfresh)

theorem growEach_forgets (h : Indexed g) (ids : List ResourceId) (ht : Tracks [] s) :
    Forgets (growEach g ids s) (Traversal.growEach g ids s.progress) := by
  induction ids generalizing s with
  | nil => exact .ok [] ht
  | cons id rest ih =>
    unfold growEach Traversal.growEach
    by_cases hfresh : id ∈ s.progress.unvisited
    · rw [if_pos hfresh, if_pos hfresh]
      obtain ⟨hgrown, htracks⟩ := grow_forgets (e := { target := id }) h ht hfresh
      rw [hgrown]
      cases hg : grow g { target := id } s with
      | error d => exact .error d
      | ok found =>
        obtain ⟨tree, later⟩ := found
        have hlater := htracks tree later hg
        obtain ⟨hrest, htracksRest⟩ := ih hlater
        dsimp only [Except.map]
        rw [hrest]
        cases hr : growEach g rest later with
        | error d => exact .error d
        | ok found => exact .ok _ (htracksRest found.1 found.2 hr)
    · rw [if_neg hfresh, if_neg hfresh]
      exact ih ht

theorem promote_forgets (h : Indexed g) (ht : Tracks [] s) :
    Forgets (promote g s) (Traversal.promote g s.progress) := by
  -- a tree is grown from the same resource as long as there is one
  have hgrow {s : State} {id : ResourceId} {rest : List ResourceId} (ht : Tracks [] s)
      (hfirst : s.progress.unvisited.toList = id :: rest) :
      Forgets (grow g { target := id } s) (Traversal.grow g { target := id } s.progress) :=
    grow_forgets h ht (IdSet.mem_def.2 (hfirst ▸ List.mem_cons_self))
  fun_induction promote g s with
  | case1 s hnone =>
    rw [Traversal.promote_of_nothing hnone]
    exact .ok [] ht
  | case2 s id rest hfirst d hg =>
    rw [Traversal.promote_eq, hfirst]
    dsimp only
    rw [(hgrow ht hfirst).1, hg]
    exact .error d
  | case3 s id rest hfirst tree later hg d hp ih =>
    obtain ⟨hbare, htracks⟩ := hgrow ht hfirst
    rw [Traversal.promote_eq, hfirst]
    dsimp only
    rw [hbare, hg]
    dsimp only [Except.map]
    rw [(ih (htracks tree later hg)).1, hp]
    exact .error d
  | case4 s id rest hfirst tree later hg trees last hp ih =>
    obtain ⟨hbare, htracks⟩ := hgrow ht hfirst
    obtain ⟨hbareRest, htracksRest⟩ := ih (htracks tree later hg)
    rw [Traversal.promote_eq, hfirst]
    dsimp only
    rw [hbare, hg]
    dsimp only [Except.map]
    rw [hbareRest, hp]
    exact .ok _ (htracksRest trees last hp)

/-- The builder builds what is built without tables, in every graph whose resources are where their
ids say. -/
theorem build_eq (h : Indexed g) : build g = Traversal.build g := by
  unfold build Traversal.build
  cases Traversal.roots g with
  | error d => rfl
  | ok planned =>
    dsimp only
    have hstart : Tracks [] ({ progress := { unvisited := Traversal.typedIds g } } : State) :=
      .nil rfl rfl
    obtain ⟨hgrown, htracks⟩ := growEach_forgets h planned hstart
    rw [hgrown]
    cases hg : growEach g planned { progress := { unvisited := Traversal.typedIds g } } with
    | error d => rfl
    | ok found =>
      obtain ⟨trees, s⟩ := found
      obtain ⟨hpromoted, _⟩ := promote_forgets h (htracks trees s hg)
      dsimp only [Except.map]
      rw [hpromoted]
      cases promote g s <;> rfl

end Builder

end Thesaurus
