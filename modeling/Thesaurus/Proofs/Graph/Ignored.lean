import Thesaurus.Proofs.Graph.Overlooked
import Thesaurus.Proofs.Hierarchy.Stats

/-!
# Ignored statements

A statement of no interest is counted and leaves no other trace. Whether a statement is one depends
on the configuration alone, and a graph is the same but for its counters if the statements that it
ignores are never made.

- `ResourceGraph.ignores`: which statements are of no interest under a configuration.
- `ResourceGraph.skipped`: the graph that has ignored some more statements.
- `ResourceGraph.heeded`: the statements of a stream that do not raise the counter of ignored ones.
- `ResourceGraph.heeded_eq_filter`: they are those of interest under the configuration.
- `ResourceGraph.ingestAll_heeded`: what was ignored only counts.
- `ResourceGraph.completed_skipped`, `ResourceGraph.stats_skipped`: so it does to the end.
-/

namespace Thesaurus

open Rdf (Node Object Predicate Relation Triple)

namespace ResourceGraph

/-- Whether a statement is of no interest under a configuration: its predicate is not in the
vocabulary, its object is a node where a text is expected, or it is a relation that is not
heeded. -/
def ignores (c : Configuration) (t : Triple) : Bool :=
  match Predicate.ofIri? t.predicate, t.object with
  | none, _ => true
  | some (.text _), .node _ => true
  | some (.relation r), .node object => !heedsRelation c r object
  | some _, .literal _ => false

/-- The graph that has ignored `k` more statements. -/
def skipped (k : Nat) (g : ResourceGraph) : ResourceGraph :=
  { g with
    counters :=
      { g.counters with
        triples := g.counters.triples + k
        ignored := g.counters.ignored + k } }

/-- The statements of a stream that do not raise the counter of ignored ones when they are taken in
one after the other. -/
def heeded (g : ResourceGraph) : List Triple → List Triple
  | [] => []
  | t :: rest =>
    match g.ingest t with
    | .error _ => t :: rest
    | .ok later =>
      if later.counters.ignored = g.counters.ignored then t :: later.heeded rest
      else later.heeded rest

variable {g g' : ResourceGraph} {t : Triple} {triples : List Triple} {k l : Nat}

/-! ## One statement -/

/-- A statement of no interest is counted, and counted as ignored. Nothing else happens. -/
theorem accept_of_ignores (h : ignores g.configuration t = true) :
    g.accept t = .ok (g.skipped 1) := by
  obtain ⟨g', htaken, haccepted⟩ := exists_accepted g t
  rw [htaken]
  unfold ignores at h
  cases haccepted with
  | unknown => rfl
  | untold => rfl
  | @related r n hpredicate hobject =>
    rw [hpredicate, hobject] at h
    have hunheeded : heedsRelation g.configuration r n = false := by simpa using h
    rw [relate_of_unheeded (g := g.counted) hunheeded]
    rfl
  | described hpredicate hobject => simp [hpredicate, hobject] at h
  | refused hpredicate hobject => simp [hpredicate, hobject] at h

/-- Nothing that links do is counted. -/
theorem keptByLinks_ignored (k : Nat) : KeptByLinks fun g => g.counters.ignored = k where
  ensure g n hg := by rwa [counters_ensure]
  request g id requested cause hg := by
    rw [request_eq]
    exact hg
  updateLinks _ _ _ hg := hg
  report _ _ hg := hg
  linkCell _ _ _ _ hg := hg

/-- The counter of ignored statements goes up by a statement of no interest and by no other. -/
theorem ignored_of_accept (htaken : g.accept t = .ok g') :
    g'.counters.ignored = g.counters.ignored + (ignores g.configuration t).toNat := by
  cases hignores : ignores g.configuration t with
  | true =>
    obtain rfl : g.skipped 1 = g' := Except.ok.inj ((accept_of_ignores hignores).symm.trans htaken)
    rfl
  | false =>
    unfold ignores at hignores
    cases accepted_of_accept htaken with
    | unknown hpredicate => simp [hpredicate] at hignores
    | untold hpredicate hobject => simp [hpredicate, hobject] at hignores
    | @related r n hpredicate hobject =>
      rw [hpredicate, hobject] at hignores
      have hheeded : heedsRelation g.configuration r n = true := by simpa using hignores
      exact (keptByLinks_ignored _).relate (g := g.counted) rfl hheeded
    | described => exact (keptByLinks_ignored _).ensure g.counted t.subject rfl
    | refused => rfl

/-- Whether a statement is ignored depends on the statement and the configuration only. -/
theorem ignored_of_ingest (htaken : g.ingest t = .ok g') :
    g'.counters.ignored = g.counters.ignored + (ignores g.configuration t).toNat ∧
      (ignores g.configuration t = true → g' = g.skipped 1) := by
  obtain ⟨_, haccepted⟩ := of_ingest htaken
  exact ⟨ignored_of_accept haccepted, fun h =>
    Except.ok.inj (haccepted.symm.trans (accept_of_ignores h))⟩

/-! ## Streams of statements -/

/-- The counters are overlooked. -/
theorem overlooked_skipped (c : Configuration) (k : Nat) : Overlooked c c (skipped k) where
  configuration := id
  resources := fun _ => rfl
  index := fun _ => rfl
  frozen := fun _ => rfl
  withResources := fun _ _ _ => rfl
  report := fun _ _ => rfl
  linkCell := fun _ _ _ _ => rfl
  ignore := fun g => by
    simp only [ignore, skipped, Nat.add_right_comm]
  counted := fun g => by
    simp only [counted, skipped, Nat.add_right_comm]

theorem ingestAll_skipped : (g.skipped k).ingestAll triples =
    (g.ingestAll triples).map (skipped k) :=
  (overlooked_skipped g.configuration k).ingestAll rfl fun _ _ => .refl _ _

theorem skipped_skipped : (g.skipped k).skipped l = g.skipped (k + l) := by
  simp only [skipped, Nat.add_assoc]

/-- The counter of ignored statements tells how many statements of a stream are of no interest. -/
theorem ignored_of_ingestAll (htaken : g.ingestAll triples = .ok g') :
    g'.counters.ignored = g.counters.ignored + triples.countP (ignores g.configuration) := by
  induction triples generalizing g with
  | nil =>
    cases htaken
    rfl
  | cons t rest ih =>
    obtain ⟨later, hfirst, hothers⟩ := of_ingestAll_cons htaken
    rw [ih hothers, (ignored_of_ingest hfirst).1, configuration_accept (of_ingest hfirst).2,
      List.countP_cons]
    cases ignores g.configuration t with
    | false => rfl
    | true => exact Nat.add_right_comm ..

/-- The statements of a stream that are not ignored are those of interest. -/
theorem heeded_eq_filter (hopen : g.frozen = false) :
    g.heeded triples = triples.filter (!ignores g.configuration ·) := by
  induction triples generalizing g with
  | nil => rfl
  | cons t rest ih =>
    obtain ⟨later, htaken⟩ := exists_ingest t hopen
    have hkept := configuration_accept (of_ingest htaken).2
    have hstate := frozen_accept (of_ingest htaken).2
    -- the counter tells whether the statement is of interest
    have htally := (ignored_of_ingest htaken).1
    have hfollowing := ih (hstate.trans hopen)
    rw [hkept] at hfollowing
    rw [heeded, htaken, List.filter_cons]
    cases hignores : ignores g.configuration t with
    | false =>
      rw [hignores] at htally
      simpa [htally] using hfollowing
    | true =>
      rw [hignores] at htally
      simpa [htally] using hfollowing

/-- What becomes of a stream becomes of the statements in it that are heeded, but for the counters
of what was ignored. -/
theorem ingestAll_heeded (hopen : g.frozen = false) : g.ingestAll triples =
    (g.ingestAll (g.heeded triples)).map (skipped (triples.countP (ignores g.configuration))) := by
  rw [heeded_eq_filter hopen]
  induction triples generalizing g with
  | nil => rfl
  | cons t rest ih =>
    obtain ⟨later, htaken⟩ := exists_ingest t hopen
    have hkept := configuration_accept (of_ingest htaken).2
    have hstate := frozen_accept (of_ingest htaken).2
    rw [ingestAll, htaken, List.filter_cons, List.countP_cons]
    dsimp only
    cases hignores : ignores g.configuration t with
    | false =>
      have hfollowing := ih (hstate.trans hopen)
      rw [hkept] at hfollowing
      simpa [ingestAll, htaken] using hfollowing
    | true =>
      -- the counters of what is left out add up
      rw [(ignored_of_ingest htaken).2 hignores, ingestAll_skipped, ih hopen, if_pos rfl,
        if_neg (show ¬ (!true) = true from Bool.false_ne_true)]
      cases g.ingestAll (rest.filter (!ignores g.configuration ·)) with
      | error d => rfl
      | ok last => exact congrArg Except.ok skipped_skipped

/-! ## The finished graph -/

/-- What was ignored is not looked at when the graph is finished. -/
theorem completed_skipped : (g.skipped k).completed = g.completed.skipped k := by
  have hfreeze (g : ResourceGraph) : (g.skipped k).freeze = g.freeze.skipped k := by
    have hasked : (g.skipped k).configuration = g.configuration := rfl
    have hprune : (g.skipped k).prune = g.prune.skipped k :=
      prune_replaced (skipped k) rfl fun _ _ _ => rfl
    rw [freeze_eq, freeze_eq, hasked, hprune]
    split <;> rfl
  exact congrArg checkTopConcepts (hfreeze g.readMemberLists.dropSchemesFromCollections)

/-- Statistics do not count it. -/
theorem stats_skipped : (g.skipped k).stats = g.stats :=
  rfl

end ResourceGraph

end Thesaurus
