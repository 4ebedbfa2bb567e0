import Mathlib.Data.List.TakeWhile
import Thesaurus.Proofs.Transform

/-!
# Calls on a session

A session is called any number of times before its forest is built. The first call that asks for the
finished graph or its statistics closes it: nothing changes it afterwards, and statements are
refused. So the forest is that of the statements that were given before.

- `Session.Call`, `Session.Answer`: what can be asked of a session, and how it answers.
- `Session.perform`, `Session.replay`: the session after a call and after several, with the answers.
- `Session.perform_open`, `Session.perform_finishing`, `Session.perform_frozen`: what a call does to
  an open session, when it closes the session, and afterwards.
- `Session.replay_graph`: the graph after any calls.
- `freezing_final`: a closed session stays as it is, and its forest is that of a whole transform.
-/

namespace Thesaurus

open Rdf (Triple)

namespace Session

/-- What can be asked of a session any number of times. -/
inductive Call where
  | ingest (t : Triple)
  | ingestAll (triples : List Triple)
  | finish
  | stats

/-- How a call is answered: it is done, so many statements were taken in, or the statistics of the
graph. -/
inductive Answer where
  | done
  | taken (count : Nat)
  | described (stats : HierarchyStats)
deriving DecidableEq

namespace Call

/-- The statements that a call gives. -/
def statements : Call → List Triple
  | ingest t => [t]
  | ingestAll triples => triples
  | finish | stats => []

/-- Whether a call asks for the finished graph. -/
def isFinishing : Call → Bool
  | ingest _ | ingestAll _ => false
  | finish | stats => true

end Call

/-- Takes in statements one after the other and counts them on. The first that fails ends this; what
was taken in before it stays. -/
def ingestEach (s : Session) (count : Nat) : List Triple → Session × Except Defect Answer
  | [] => (s, .ok (.taken count))
  | t :: rest =>
    match s.ingest t with
    | .error d => (s, .error d)
    | .ok next => next.ingestEach (count + 1) rest

/-- The session after a call, and the answer. Where the statistics fail, the graph is finished all
the same. -/
def perform (s : Session) : Call → Session × Except Defect Answer
  | .ingest t =>
    match s.ingest t with
    | .error d => (s, .error d)
    | .ok next => (next, .ok .done)
  | .ingestAll triples => s.ingestEach 0 triples
  | .finish =>
    match s.finish with
    | .error d => (s, .error d)
    | .ok next => (next, .ok .done)
  | .stats =>
    match s.finish with
    | .error d => (s, .error d)
    | .ok next => (next, next.graph.checkedStats.map .described)

/-- The session after some calls, and the answers in their order. -/
def replay (s : Session) : List Call → Session × List (Except Defect Answer)
  | [] => (s, [])
  | call :: rest =>
    let (next, answer) := s.perform call
    let (last, answers) := next.replay rest
    (last, answer :: answers)

/-- The statements that calls give before the first that asks for the finished graph. -/
def givenInTime (calls : List Call) : List Triple :=
  (calls.takeWhile (!·.isFinishing)).flatMap (·.statements)

variable {s : Session} {g g' : ResourceGraph} {call : Call} {calls before later : List Call}
  {triples others : List Triple}

/-! ## One call -/

/-- Statements that are all taken in are counted. -/
theorem ingestEach_eq (htaken : g.ingestAll triples = .ok g') (count : Nat) :
    (Session.mk g).ingestEach count triples = (⟨g'⟩, .ok (.taken (count + triples.length))) := by
  induction triples generalizing g count with
  | nil =>
    cases htaken
    rfl
  | cons t rest ih =>
    obtain ⟨g₁, hfirst, hothers⟩ := ResourceGraph.of_ingestAll_cons htaken
    have hcounted := ih hothers (count + 1)
    simp only [ingestEach, ingest, hfirst, hcounted, List.length_cons]
    congr 3
    omega

/-- An open session takes in what it is given. -/
theorem perform_open (h : Sound g) (hopen : g.frozen = false) (hcall : call.isFinishing = false) :
    ∃ g' answer, (Session.mk g).perform call = (⟨g'⟩, .ok answer) ∧
      g.ingestAll call.statements = .ok g' ∧ Sound g' ∧ g'.frozen = false := by
  obtain ⟨g', htaken, hsound, _, hstill, _⟩ :=
    ResourceGraph.exists_ingestAll call.statements h hopen
  cases call with
  | ingest t =>
    obtain ⟨_, hfirst, hrest⟩ := ResourceGraph.of_ingestAll_cons htaken
    cases hrest
    refine ⟨g', .done, ?_, htaken, hsound, hstill⟩
    simp only [perform, ingest, hfirst]
  | ingestAll triples => exact ⟨g', _, ingestEach_eq htaken 0, htaken, hsound, hstill⟩
  | finish => cases hcall
  | stats => cases hcall

/-- Finishing an open session completes its graph. -/
theorem finish_open (hopen : g.frozen = false) : (Session.mk g).finish = .ok ⟨g.completed⟩ := by
  rw [finish, if_neg (by simp [hopen]), ResourceGraph.finish_eq hopen]

/-- An open session is finished by the first call that asks for it. -/
theorem perform_finishing (hopen : g.frozen = false) (hcall : call.isFinishing = true) :
    ∃ answer, (Session.mk g).perform call = (⟨g.completed⟩, .ok answer) := by
  cases call with
  | ingest => cases hcall
  | ingestAll => cases hcall
  | finish => exact ⟨.done, by simp only [perform, finish_open hopen]⟩
  | stats =>
    refine ⟨.described g.completed.stats, ?_⟩
    simp only [perform, finish_open hopen, ResourceGraph.checkedStats_eq]
    rfl

/-- A completed graph is finished. -/
theorem frozen_completed : (Session.mk g.completed).graph.frozen = true :=
  ResourceGraph.frozen_freeze

/-- A finished session is finished again without a change. -/
theorem finish_frozen (hfrozen : s.graph.frozen = true) : s.finish = .ok s := by
  rw [finish, if_pos hfrozen]

/-- A finished session refuses statements, and no call changes it. -/
theorem perform_frozen (hfrozen : s.graph.frozen = true) (call : Call) :
    (s.perform call).1 = s ∧ (call.statements ≠ [] → (s.perform call).2 = .error .frozen) := by
  have hrefused : ∀ t, s.ingest t = .error .frozen := fun t => by
    rw [ingest, ResourceGraph.ingest, if_pos hfrozen]
  cases call with
  | ingest t => simp only [perform, hrefused, ne_eq, implies_true, and_self]
  | ingestAll triples =>
    cases triples with
    | nil => exact ⟨rfl, fun hgiven => absurd rfl hgiven⟩
    | cons t rest => simp only [perform, ingestEach, hrefused, ne_eq, implies_true, and_self]
  | finish =>
    simp only [perform, finish_frozen hfrozen, true_and]
    exact fun hgiven => absurd rfl hgiven
  | stats =>
    simp only [perform, finish_frozen hfrozen, true_and]
    exact fun hgiven => absurd rfl hgiven

/-! ## Several calls -/

theorem replay_append (s : Session) (before later : List Call) :
    s.replay (before ++ later) = (((s.replay before).1.replay later).1,
      (s.replay before).2 ++ ((s.replay before).1.replay later).2) := by
  induction before generalizing s with
  | nil => rfl
  | cons call rest ih => simp only [List.cons_append, replay, ih]

/-- Calls on a finished session leave it as it is, and those that give statements are refused. -/
theorem replay_frozen (hfrozen : s.graph.frozen = true) (calls : List Call) :
    (s.replay calls).1 = s ∧
      List.Forall₂ (fun call answer => call.statements ≠ [] → answer = .error .frozen) calls
        (s.replay calls).2 := by
  induction calls with
  | nil => exact ⟨rfl, .nil⟩
  | cons call rest ih =>
    obtain ⟨hsame, hrefused⟩ := perform_frozen hfrozen call
    simp only [replay, hsame]
    exact ⟨ih.1, .cons hrefused ih.2⟩

/-- Statements that are taken in one after the other are taken in together. -/
theorem ingestAll_append (htaken : g.ingestAll triples = .ok g') :
    g.ingestAll (triples ++ others) = g'.ingestAll others := by
  induction triples generalizing g with
  | nil =>
    cases htaken
    rfl
  | cons t rest ih =>
    obtain ⟨g₁, hfirst, hrestTaken⟩ := ResourceGraph.of_ingestAll_cons htaken
    simp only [List.cons_append, ResourceGraph.ingestAll, hfirst, ih hrestTaken]

/-- An open session takes in what several calls give, and none of them fails. -/
theorem replay_open (h : Sound g) (hopen : g.frozen = false)
    (hcalls : ∀ call ∈ calls, call.isFinishing = false) :
    ∃ g', ((Session.mk g).replay calls).1 = ⟨g'⟩ ∧
      g.ingestAll (calls.flatMap (·.statements)) = .ok g' ∧ Sound g' ∧ g'.frozen = false ∧
      ∀ answer ∈ ((Session.mk g).replay calls).2, answer.isOk = true := by
  induction calls generalizing g with
  | nil => exact ⟨g, rfl, rfl, h, hopen, fun _ hnone => absurd hnone List.not_mem_nil⟩
  | cons call rest ih =>
    obtain ⟨g₁, answer, hfirst, htaken, hsound, hstill⟩ :=
      perform_open h hopen (hcalls call List.mem_cons_self)
    obtain ⟨g₂, hlast, hrestTaken, hsound₂, hstill₂, hanswered⟩ :=
      ih hsound hstill fun call hcall => hcalls call (List.mem_cons_of_mem _ hcall)
    simp only [replay, hfirst]
    refine ⟨g₂, hlast, ?_, hsound₂, hstill₂, fun a ha => ?_⟩
    · rw [List.flatMap_cons, ingestAll_append htaken, hrestTaken]
    · rcases List.mem_cons.1 ha with rfl | ha
      · rfl
      · exact hanswered a ha

/-- Without a call that asks for the finished graph all statements are given in time; otherwise the
first such call parts the others. -/
theorem finishing_cases (calls : List Call) :
    (∀ call ∈ calls, call.isFinishing = false) ∧ calls.takeWhile (!·.isFinishing) = calls ∨
      ∃ call later, call.isFinishing = true ∧
        calls = calls.takeWhile (!·.isFinishing) ++ call :: later := by
  induction calls with
  | nil => exact .inl ⟨fun _ hnone => absurd hnone List.not_mem_nil, rfl⟩
  | cons call rest ih =>
    cases hfinishing : call.isFinishing with
    | true => exact .inr ⟨call, rest, hfinishing, by simp [hfinishing]⟩
    | false =>
      rcases ih with ⟨hnone, hall⟩ | ⟨first, later, hfirstFinishing, hsplit⟩
      · exact .inl ⟨List.forall_mem_cons.2 ⟨hfinishing, hnone⟩, by simp [hfinishing, hall]⟩
      · refine .inr ⟨first, later, hfirstFinishing, ?_⟩
        rw [List.takeWhile_cons_of_pos (by simp [hfinishing]), List.cons_append, ← hsplit]

theorem not_finishing_of_takeWhile (calls : List Call) :
    ∀ call ∈ calls.takeWhile (!·.isFinishing), call.isFinishing = false := fun call hcall => by
  simpa using List.mem_takeWhile_imp hcall

/-- After any calls the graph has taken in what was given in time, and it is finished if some call
asked for that. -/
theorem replay_graph (h : Sound g) (hopen : g.frozen = false) (calls : List Call) :
    ∃ g', g.ingestAll (givenInTime calls) = .ok g' ∧ Sound g' ∧ g'.frozen = false ∧
      ((Session.mk g).replay calls).1 =
        if calls.any (·.isFinishing) then ⟨g'.completed⟩ else ⟨g'⟩ := by
  obtain ⟨g', hlast, htaken, hsound, hstill, _⟩ := replay_open h hopen
    (not_finishing_of_takeWhile calls)
  refine ⟨g', htaken, hsound, hstill, ?_⟩
  rcases finishing_cases calls with ⟨hnone, hall⟩ | ⟨call, later, hfinishing, hsplit⟩
  · rw [hall] at hlast
    rw [hlast, if_neg]
    simpa using hnone
  · obtain ⟨answer, hclosed⟩ := perform_finishing hstill hfinishing
    have hsome : calls.any (·.isFinishing) = true := by
      rw [hsplit]
      simp [hfinishing]
    rw [if_pos hsome, hsplit, replay_append, hlast]
    simp only [replay, hclosed]
    exact (replay_frozen frozen_completed later).1

/-- Some call that asks for the finished graph closes the session. -/
theorem frozen_replay (h : Sound g) (hopen : g.frozen = false)
    (hcalls : ∃ call ∈ calls, call.isFinishing = true) :
    ((Session.mk g).replay calls).1.graph.frozen = true := by
  obtain ⟨g', _, _, _, hlast⟩ := replay_graph h hopen calls
  rw [hlast, if_pos (List.any_eq_true.2 hcalls)]
  exact frozen_completed

/-- The forest of a finished session is the one it would have had before. -/
theorem build_completed (hopen : g.frozen = false) :
    (Session.mk g.completed).build = (Session.mk g).build := by
  rw [build, build, finish_frozen frozen_completed, finish_open hopen]

end Session

open Session

/-- Whatever is called in whatever order on a session whose configuration can be used: calls before
the first that asks for the finished graph or its statistics do not fail; later ones leave the
session as it is, and fail if they give statements. The forest that is built in the end is that of a
whole transform of the statements that were given in time. -/
theorem freezing_final (c : Configuration) (hvalid : c.validate = .ok ()) (calls : List Call) :
    ∃ s, Session.start c = .ok s ∧
      (∀ answer ∈ (s.replay (calls.takeWhile (!·.isFinishing))).2, answer.isOk = true) ∧
      (∀ before later, calls = before ++ later → (∃ call ∈ before, call.isFinishing = true) →
        (s.replay calls).1 = (s.replay before).1 ∧
        ∃ answers, (s.replay calls).2 = (s.replay before).2 ++ answers ∧
          List.Forall₂ (fun call answer => call.statements ≠ [] → answer = .error .frozen) later
            answers) ∧
      ∃ outcome, (s.replay calls).1.build = .ok outcome ∧
        transform c (givenInTime calls) = .ok outcome := by
  have hsound := Sound.new c
  have hstarted : Session.start c = .ok ⟨.new c⟩ := by simp only [Session.start, hvalid]
  refine ⟨⟨.new c⟩, hstarted, ?_, ?_, ?_⟩
  · obtain ⟨_, _, _, _, _, hanswered⟩ := replay_open hsound rfl
      (not_finishing_of_takeWhile calls)
    exact hanswered
  · rintro before later rfl hfinishing
    obtain ⟨hsame, hrefused⟩ := replay_frozen (frozen_replay hsound rfl hfinishing) later
    rw [replay_append]
    exact ⟨hsame, _, rfl, hrefused⟩
  · obtain ⟨g, htaken, _, hopen, hlast⟩ := replay_graph hsound rfl calls
    obtain ⟨outcome, htransformed⟩ := exists_transform (givenInTime calls) hvalid
    refine ⟨outcome, ?_, htransformed⟩
    -- a transform is a session with one call
    have hbuilt : (Session.mk g).build = .ok outcome := by
      simp only [transform, hstarted, Session.ingestAll, htaken] at htransformed
      split at htransformed
      · cases htransformed
      · next o hsame =>
        cases htransformed
        exact hsame
    rw [hlast]
    split
    · rw [build_completed hopen, hbuilt]
    · exact hbuilt

/-- Calls of which the last one gives a statement too late. -/
def lateCalls : List Call := [
  .ingestAll smallStatements,
  .stats,
  .ingest ⟨.iri "urn:c", "http://www.w3.org/2004/02/skos/core#broader", .node (.iri "urn:b")⟩]

theorem freezing_final_late : Configuration.validate { conceptSchemes := true } = .ok () ∧
    ∃ s, Session.start { conceptSchemes := true } = .ok s ∧
      (s.replay lateCalls).1 = (s.replay (lateCalls.take 2)).1 ∧
      (s.replay lateCalls).2 = (s.replay (lateCalls.take 2)).2 ++ [.error .frozen] ∧
      ∃ outcome, (s.replay lateCalls).1.build = .ok outcome ∧
        transform { conceptSchemes := true } smallStatements = .ok outcome := by
  obtain ⟨s, hstarted, _, hkept, outcome, hbuilt, htransformed⟩ :=
    freezing_final { conceptSchemes := true } rfl lateCalls
  obtain ⟨hsame, answers, hall, hrefused⟩ :=
    hkept (lateCalls.take 2) (lateCalls.drop 2) rfl ⟨.stats, by simp [lateCalls], rfl⟩
  have hlate : answers = [.error .frozen] := by
    obtain _ | ⟨hfirst, hnone⟩ := hrefused
    cases hnone
    rw [hfirst (by simp [Call.statements])]
  exact ⟨rfl, s, hstarted, hsame, hlate ▸ hall, outcome, hbuilt, htransformed⟩

end Thesaurus
