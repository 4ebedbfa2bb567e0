import Thesaurus.Proofs.Graph.Streams
import Thesaurus.Proofs.Listing

/-!
# Members that were stated

Members are linked as statements come in, unless the collection is something else by then. A node
that is a collection in the end was one, or nothing yet, whenever something was stated about it, so
no statement about its members was refused.

- `Kind.Becomes`: how the kind of a node can change.
- `ResourceGraph.LeavesMembers`: changes that have nothing to do with members.
- `ResourceGraph.MembersStated`, `ResourceGraph.ingestAll_membersStated`: the members of a
  collection are those that were stated.
-/

namespace Thesaurus

open Rdf (Literal Node Predicate Relation Triple)

/-- The statement that a node is a member of a collection. -/
def memberStatement (collection member : Node) : Triple :=
  ⟨collection, "http://www.w3.org/2004/02/skos/core#member", .node member⟩

/-- Only that statement relates a collection to a member. -/
theorem eq_memberStatement {t : Triple} {m : Node}
    (hpredicate : Predicate.ofIri? t.predicate = some (.relation .member))
    (hobject : t.object = .node m) : t = memberStatement t.subject m := by
  obtain ⟨subject, predicate, object⟩ := t
  have hlisted : (predicate, Predicate.relation .member) ∈ Predicate.vocabulary :=
    mem_of_lookup hpredicate
  have hiri : predicate = "http://www.w3.org/2004/02/skos/core#member" := by
    simpa [Predicate.vocabulary] using hlisted
  rw [memberStatement, hiri, ← hobject]

namespace Kind

/-- Whether what is of kind `k` can be of kind `l` later. -/
def Becomes (k l : Kind) : Prop :=
  l = k ∨ k.transition l = .set l

instance (k l : Kind) : Decidable (k.Becomes l) :=
  inferInstanceAs (Decidable (_ ∨ _))

variable {k l m : Kind}

theorem Becomes.refl (k : Kind) : k.Becomes k :=
  .inl rfl

theorem Becomes.trans (h : k.Becomes l) (hnext : l.Becomes m) : k.Becomes m := by
  cases k <;> cases l <;> cases m <;> first | decide | (revert h hnext; decide)

theorem becomes_after (k requested : Kind) : k.Becomes (k.after requested) := by
  cases k <;> cases requested <;> decide

theorem Becomes.isKnown (h : k.Becomes l) (hk : k.isKnown = true) : l.isKnown = true := by
  cases k <;> cases l <;> first | rfl | (revert h hk; decide)

/-- What has become a collection was one, or nothing was known. -/
theorem Becomes.isCollection (h : k.Becomes l) (hk : k.isKnown = true)
    (hl : l.isCollection = true) : k.isCollection = true := by
  cases k <;> cases l <;> first | rfl | (revert h hk hl; decide)

end Kind

namespace ResourceGraph

variable {g g' g₁ : ResourceGraph} {m n k : Node} {i j : ResourceId} {done : List Triple}

/-- Kinds move on as they can when one of them is asked for. -/
theorem becomes_request (g : ResourceGraph) (id other : ResourceId) (requested : Kind)
    (cause : Relation) :
    (g.kindOf other).Becomes ((g.request id requested cause).kindOf other) := by
  rw [kindOf, kindOf, get_request]
  by_cases hsame : other = id
  · rw [if_pos hsame]
    cases g.resources[other]? with
    | none => exact .refl _
    | some r => exact Kind.becomes_after _ _
  · rw [if_neg hsame]
    exact .refl _

/-! ## Changes that leave members alone -/

/-- Whether a change has nothing to do with members. -/
structure LeavesMembers (g g' : ResourceGraph) : Prop where
  becomes : ∀ n, (g.kindAt n).Becomes (g'.kindAt n)
  relates_iff : ∀ k m, g'.Relates .members k m ↔ g.Relates .members k m
  issues : ∀ i ∈ g'.issues, i ∈ g.issues ∨ i.kind ≠ .orderedMembersMismatch

namespace LeavesMembers

theorem trans (h : LeavesMembers g g₁) (hnext : LeavesMembers g₁ g') : LeavesMembers g g' where
  becomes := fun n => (h.becomes n).trans (hnext.becomes n)
  relates_iff := fun k m => (hnext.relates_iff k m).trans (h.relates_iff k m)
  issues := fun i hi => (hnext.issues i hi).elim (h.issues i) .inr

/-- Nothing is changed where the resources stay the same, and are found as before. -/
theorem of_resources (hresources : g'.resources = g.resources) (hlookup : g'.lookup = g.lookup)
    (hissues : ∀ i ∈ g'.issues, i ∈ g.issues ∨ i.kind ≠ .orderedMembersMismatch) :
    LeavesMembers g g' := by
  refine ⟨fun n => ?_, fun k m => ?_, hissues⟩
  · rw [kindAt_congr hlookup (kindOf_congr hresources)]
    exact .refl _
  · exact relates_congr hlookup fun i => by rw [linksOf_congr hresources]

theorem ensure (h : Sound g) (n : Node) : LeavesMembers g (g.ensure n) where
  becomes := fun m => by
    rw [kindAt_ensure]
    exact .refl _
  relates_iff := fun _ _ => relates_ensure h
  issues := fun i hi => by
    unfold ResourceGraph.ensure at hi
    split at hi <;> exact .inl hi

theorem request (g : ResourceGraph) (id : ResourceId) (requested : Kind) (cause : Relation) :
    LeavesMembers g (g.request id requested cause) where
  becomes := fun n => by
    rw [kindAt, kindAt, lookup_request]
    cases g.lookup n with
    | none => exact .refl _
    | some j =>
      rw [Option.elim_some, Option.elim_some]
      exact becomes_request ..
  relates_iff := fun _ _ => relates_congr lookup_request fun i => by rw [linksOf_request]
  issues := fun i hi => by
    rw [request_eq] at hi
    rcases List.mem_append.1 hi with hold | hnew
    · exact .inl hold
    · refine .inr ?_
      rw [kind_of_mem_refusal hnew]
      decide

/-- Changing a resource leaves members alone if its kind and its members stay. -/
theorem update (g : ResourceGraph) (id : ResourceId) {change : Resource → Resource}
    (hkind : ∀ r, (change r).kind = r.kind)
    (hmembers : ∀ r, (change r).links.members = r.links.members) :
    LeavesMembers g (g.update id change) where
  becomes := fun n => by
    rw [kindAt_congr (lookup_update change) (kindOf_update hkind)]
    exact .refl _
  relates_iff := fun _ _ => relates_congr (lookup_update change) fun i => by
    rw [linksOf, linksOf, get_update]
    split <;> cases g.resources[i]? <;> simp [Links.along, hmembers]
  issues := fun _ hi => .inl hi

theorem updateLinks (g : ResourceGraph) (id : ResourceId) {change : Links → Links}
    (hchange : ∀ l, (change l).members = l.members) :
    LeavesMembers g (g.updateLinks id change) :=
  update g id (fun _ => rfl) fun r => hchange r.links

/-- Recording another issue has nothing to do with members. -/
theorem report (g : ResourceGraph) {issue : Issue} (h : issue.kind ≠ .orderedMembersMismatch) :
    LeavesMembers g (g.report issue) := by
  refine of_resources rfl rfl fun i hi => ?_
  rcases List.mem_append.1 hi with hi | hi
  · exact .inl hi
  · rw [List.mem_singleton.1 hi]
    exact .inr h

theorem counters (g : ResourceGraph) (counters : Counters) :
    LeavesMembers g { g with counters := counters } :=
  of_resources rfl rfl fun _ hi => .inl hi

/-! ## Statements that leave members alone -/

theorem linkType (h : Sound g) (n class_ : Node) : LeavesMembers g (g.linkType n class_) := by
  unfold ResourceGraph.linkType
  split
  · exact counters g _
  · exact (ensure h n).trans (request ..)

theorem linkHierarchy (h : Sound g) (upper lower : Node) (cause : Relation) :
    LeavesMembers g (g.linkHierarchy upper lower cause) := by
  unfold ResourceGraph.linkHierarchy
  extract_lets upperId g₁ lowerId g₂ upperFits g₃ lowerFits g₄
  have hnamed : LeavesMembers g g₂ := (ensure h upper).trans (ensure h.ensure lower)
  have hasked : LeavesMembers g g₄ := (hnamed.trans (request ..)).trans (request ..)
  split
  · refine (hasked.trans (updateLinks _ _ ?_)).trans (updateLinks _ _ ?_) <;> exact fun _ => rfl
  · exact hasked

theorem linkScheme (h : Sound g) (member scheme : Node) (top : Bool) (cause : Relation) :
    LeavesMembers g (g.linkScheme member scheme top cause) := by
  unfold ResourceGraph.linkScheme
  extract_lets schemeId g₁ memberId g₂ schemeFits g₃ memberFits g₄
  have hnamed : LeavesMembers g g₂ := (ensure h scheme).trans (ensure h.ensure member)
  have hasked : LeavesMembers g g₃ := hnamed.trans (request ..)
  have haskedBoth : LeavesMembers g g₄ := by
    show LeavesMembers g (if top then g₃.request memberId .concept cause else g₃)
    split
    · exact hasked.trans (request ..)
    · exact hasked
  split
  · exact hasked
  · split
    · exact haskedBoth
    · refine (haskedBoth.trans (updateLinks _ _ ?_)).trans (updateLinks _ _ ?_) <;>
        exact fun _ => rfl

theorem linkMemberList (h : Sound g) (collection head : Node) :
    LeavesMembers g (g.linkMemberList collection head) := by
  unfold ResourceGraph.linkMemberList
  extract_lets id g₁ fits g₂
  have hasked : LeavesMembers g g₂ := (ensure h collection).trans (request ..)
  split
  · exact hasked
  · split
    · refine hasked.trans (updateLinks _ _ ?_)
      exact fun _ => rfl
    · split
      · exact hasked
      · exact hasked.trans (report _ (by simp [Issue.kind]))

theorem linkCell (g : ResourceGraph) (cell : Node) (slot : CellSlot) (value : Node) :
    LeavesMembers g (g.linkCell cell slot value) := by
  refine of_resources rfl rfl fun i hi => ?_
  rcases List.mem_append.1 hi with hi | hi
  · exact .inl hi
  · right
    unfold CellStore.fillIssue? at hi
    split at hi
    · cases hi
    · split at hi
      · cases hi
      · rw [List.mem_singleton.1 hi]
        simp [Issue.kind]

theorem describe (h : Sound g) (n : Node) (p : Rdf.TextProperty) (l : Literal) :
    LeavesMembers g (g.describe n p l) := by
  refine (ensure h n).trans (update _ _ ?_ ?_) <;> exact fun _ => rfl

/-- Only statements about members have to do with members. -/
theorem relate (h : Sound g) {r : Relation} (hr : r ≠ .member) (m n : Node) :
    LeavesMembers g (g.relate m r n) := by
  unfold ResourceGraph.relate
  split
  · exact counters g _
  · cases r with
    | type => exact linkType h m n
    | broader => exact linkHierarchy h n m _
    | narrower => exact linkHierarchy h m n _
    | inScheme => exact linkScheme h m n _ _
    | topConceptOf => exact linkScheme h m n _ _
    | hasTopConcept => exact linkScheme h n m _ _
    | member => exact absurd rfl hr
    | memberList => exact linkMemberList h m n
    | listFirst => exact linkCell g m _ n
    | listRest => exact linkCell g m _ n

end LeavesMembers

/-! ## Members as they are stated -/

/-- What becomes of a graph that is told of a member. The collection is asked to be one, and the
member is linked unless it is something else. -/
theorem exists_linkMember (h : Sound g) (collection member : Node) :
    ∃ g₁, LeavesMembers g g₁ ∧ (g₁.kindAt collection).isKnown = true ∧
      (∀ n, (g.linkMember collection member).kindAt n = g₁.kindAt n) ∧
      (g.linkMember collection member).issues = g₁.issues ∧
      ∀ k m, (g.linkMember collection member).Relates .members k m ↔ g₁.Relates .members k m ∨
        ((g₁.kindAt collection).isCollection = true ∧ k = collection ∧ m = member) := by
  unfold linkMember
  extract_lets collectionId g₁ memberId g₂ fits g₃
  have hnamed : LeavesMembers g g₂ :=
    (LeavesMembers.ensure h collection).trans (.ensure h.ensure member)
  have hasked : LeavesMembers g g₃ := hnamed.trans (.request ..)
  have hfound₂ : FindsBoth g₂ collection member collectionId memberId :=
    .ensure h.indexed collection member
  have hfound₃ : FindsBoth g₃ collection member collectionId memberId := hfound₂.request _ _
  -- whatever the kind was before, a request leaves one that is known
  have hafter : g₃.kindAt collection = (g₂.kindOf collectionId).after .collection := by
    rw [kindAt_eq hfound₃.left, kindOf_request hfound₂.left_lt, if_pos rfl]
  refine ⟨g₃, hasked, ?_, ?_⟩
  · rw [hafter]
    cases g₂.kindOf collectionId <;> rfl
  · -- the member is learned behind an admitted request, and nothing is behind a refused one
    cases hadmitted : fits with
    | true =>
      have hcollection₃ : (g₃.kindAt collection).isCollection = true := by
        rw [hafter]
        exact Kind.after_collection (by simpa [fits, admits] using hadmitted)
      rw [if_neg (by simp)]
      refine ⟨fun n => ?_, rfl, fun k m => ?_⟩
      · have hlookup : (g₃.gather collectionId memberId).lookup = g₃.lookup := by simp [gather]
        exact congrFun (kindAt_congr hlookup (funext fun _ => by simp [gather])) n
      · have hlearned := (learns_gather hfound₃).knows_iff (.member k m)
        refine hlearned.trans ?_
        rw [List.mem_singleton, Fact.member.injEq, hcollection₃]
        simp only [true_and]
        rfl
    | false =>
      have hother : (g₃.kindAt collection).isCollection = false := by
        rw [hafter]
        have hrefused : g₂.admits collectionId .collection = false := hadmitted
        unfold admits at hrefused
        revert hrefused
        cases g₂.kindOf collectionId <;> decide
      rw [if_pos (by simp)]
      exact ⟨fun _ => rfl, rfl, fun k m => by simp [hother]⟩

/-- Whether what a graph says of members is what was stated, and no issue about the members of an
ordered collection was recorded yet. Only collections have members, so what was stated of anything
else is not kept. -/
structure MembersStated (g : ResourceGraph) (done : List Triple) : Prop where
  stated : ∀ k m, g.Relates .members k m → memberStatement k m ∈ done
  known : ∀ k m, memberStatement k m ∈ done → (g.kindAt k).isKnown = true
  related : ∀ k m, memberStatement k m ∈ done → (g.kindAt k).isCollection = true →
    g.Relates .members k m
  quiet : ∀ i ∈ g.issues, i.kind ≠ .orderedMembersMismatch

/-- Changes that leave members alone go with other statements. -/
theorem MembersStated.leave (h : g.MembersStated done) (hleft : LeavesMembers g g') :
    g'.MembersStated done where
  stated := fun k m hrelated => h.stated k m ((hleft.relates_iff k m).1 hrelated)
  known := fun k m hmem => (hleft.becomes k).isKnown (h.known k m hmem)
  related := fun k m hmem hcollection => (hleft.relates_iff k m).2
    (h.related k m hmem ((hleft.becomes k).isCollection (h.known k m hmem) hcollection))
  quiet := fun i hi => (hleft.issues i hi).elim (h.quiet i) id

/-- Statements that are about no member can be added. -/
theorem MembersStated.mono {t : Triple} (h : g.MembersStated done)
    (ht : ∀ k m, t ≠ memberStatement k m) : g.MembersStated (done ++ [t]) where
  stated := fun k m hrelated => List.mem_append_left _ (h.stated k m hrelated)
  known := fun k m hmem => by
    rcases List.mem_append.1 hmem with hmem | hmem
    · exact h.known k m hmem
    · exact absurd (List.mem_singleton.1 hmem).symm (ht k m)
  related := fun k m hmem => by
    rcases List.mem_append.1 hmem with hmem | hmem
    · exact h.related k m hmem
    · exact absurd (List.mem_singleton.1 hmem).symm (ht k m)
  quiet := h.quiet

/-- A statement about a member is taken in. -/
theorem MembersStated.linkMember (hg : Sound g) (h : g.MembersStated done)
    (collection member : Node) : (g.linkMember collection member).MembersStated
      (done ++ [memberStatement collection member]) := by
  obtain ⟨g₁, hleft, hknown, hkinds, hissues, hrelates⟩ := exists_linkMember hg collection member
  have hbefore := h.leave hleft
  have hcases : ∀ {k m}, memberStatement k m ∈ done ++ [memberStatement collection member] →
      memberStatement k m ∈ done ∨ (k = collection ∧ m = member) := by
    intro k m hmem
    simpa [memberStatement] using hmem
  refine ⟨fun k m hrelated => ?_, fun k m hmem => ?_, fun k m hmem hisCollection => ?_, ?_⟩
  · rcases (hrelates k m).1 hrelated with hrelated | ⟨_, rfl, rfl⟩
    · exact List.mem_append_left _ (hbefore.stated k m hrelated)
    · exact List.mem_append_right _ (List.mem_singleton_self _)
  · rw [hkinds]
    rcases hcases hmem with hmem | ⟨rfl, rfl⟩
    · exact hbefore.known k m hmem
    · exact hknown
  · rw [hkinds] at hisCollection
    rw [hrelates]
    rcases hcases hmem with hmem | ⟨rfl, rfl⟩
    · exact .inl (hbefore.related k m hmem hisCollection)
    · exact .inr ⟨hisCollection, rfl, rfl⟩
  · rw [hissues]
    exact hbefore.quiet

/-- Every statement is taken in, where collections are shown. -/
theorem MembersStated.accept {t : Triple} (hg : Sound g)
    (hshown : g.configuration.collections = true) (h : g.MembersStated done)
    (haccepted : g.accept t = .ok g') :
    g'.MembersStated (done ++ [t]) := by
  have hcounted : g.counted.MembersStated done := h.leave (.counters g _)
  have hsound : Sound g.counted :=
    hg.changes (.single (.remark g.cells g.issues _) : Changes [] _ _)
  -- a statement with another predicate states no membership
  have hother : Predicate.ofIri? t.predicate ≠ some (.relation .member) →
      ∀ k m, t ≠ memberStatement k m := by
    rintro hne k m rfl
    have hread : Predicate.ofIri? "http://www.w3.org/2004/02/skos/core#member" =
        some (.relation .member) := by decide +kernel
    exact hne hread
  cases accepted_of_accept haccepted with
  | unknown hpredicate =>
    exact (hcounted.leave (.counters _ _)).mono (hother (by simp [hpredicate]))
  | @related r n hpredicate hobject =>
    -- of all relations, only membership links members
    by_cases hmember : r = .member
    · subst hmember
      have hsame : t = memberStatement t.subject n := eq_memberStatement hpredicate hobject
      have hconsidered : considers g.counted.configuration .member = true := hshown
      have hlinked : g.counted.relate t.subject .member n = g.counted.linkMember t.subject n := by
        rw [relate, hconsidered]
        rfl
      have htaken := hcounted.linkMember hsound t.subject n
      rwa [← hlinked, ← hsame] at htaken
    · refine (hcounted.leave (.relate hsound hmember _ _)).mono (hother ?_)
      simpa [hpredicate] using hmember
  | described hpredicate hobject =>
    exact (hcounted.leave (.describe hsound _ _ _)).mono (hother (by simp [hpredicate]))
  | refused hpredicate hobject =>
    refine (hcounted.leave (.report _ (by simp [Issue.kind]))).mono ?_
    rintro k m rfl
    cases hobject
  | untold hpredicate hobject =>
    exact (hcounted.leave (.counters _ _)).mono (hother (by simp [hpredicate]))

/-- All statements are taken in, where collections are shown. -/
theorem MembersStated.ingestAll {triples : List Triple} (hg : Sound g)
    (hshown : g.configuration.collections = true) (h : g.MembersStated done)
    (htaken : g.ingestAll triples = .ok g') : g'.MembersStated (done ++ triples) := by
  induction triples generalizing g done with
  | nil =>
    cases htaken
    rwa [List.append_nil]
  | cons t rest ih =>
    obtain ⟨g₁, hfirst, hrestTaken⟩ := of_ingestAll_cons htaken
    have haccepted := (of_ingest hfirst).2
    rw [List.append_cons]
    refine ih (hg.changes (changes_of_ingest hg hfirst)) ?_ (h.accept hg hshown haccepted)
      hrestTaken
    rwa [configuration_accept haccepted]

/-- The members of the collections of a graph are those that were stated. -/
theorem ingestAll_membersStated {c : Configuration} {triples : List Triple}
    (hshown : c.collections = true) (htaken : (new c).ingestAll triples = .ok g) :
    g.MembersStated triples := by
  have hnothing : (new c).MembersStated [] := by
    refine ⟨?_, ?_, ?_, ?_⟩
    · rintro k m ⟨i, j, hi, _⟩
      exact absurd hi (by simp [new, lookup])
    · exact fun _ _ hmem => absurd hmem List.not_mem_nil
    · exact fun _ _ hmem => absurd hmem List.not_mem_nil
    · exact fun _ hmem => absurd hmem List.not_mem_nil
  exact hnothing.ingestAll (Sound.new c) hshown htaken

theorem MembersStated.relates_iff (h : g.MembersStated done)
    (hkind : (g.kindAt k).isCollection = true) :
    g.Relates .members k m ↔ memberStatement k m ∈ done :=
  ⟨h.stated k m, fun hmem => h.related k m hmem hkind⟩

end ResourceGraph

end Thesaurus
