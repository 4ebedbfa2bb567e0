import Mathlib.Logic.Function.Basic
import Thesaurus.Resource.Basic

/-!
# The laws of links

Every relation is stored at both of its ends, and the kinds of the ends fit it. The laws speak of
kinds and links as functions of the id, so that they do not depend on how a graph stores them.

- `Linked`: the laws.
- `Linked.settle`: an unknown resource may become of any kind, and a collection may become ordered.
- `narrowed`, `joined`, `gathered`: the links after two concepts, a resource and a scheme, or a
  collection and a member were related, with `Linked.narrowed` and so on.
-/

namespace Thesaurus

/-- The laws that kinds and links keep. Links are stored at both ends; both ends of the hierarchy
are concepts, and what has members is a scheme or a collection. Top concepts of a scheme are
concepts in it, and an order lists members. -/
structure Linked (kinds : ResourceId → Kind) (links : ResourceId → Links) : Prop where
  narrower_iff : ∀ a b, b ∈ (links a).narrower ↔ a ∈ (links b).broader
  narrower_kinds : ∀ a b, b ∈ (links a).narrower → kinds a = .concept ∧ kinds b = .concept
  schemeMember_iff : ∀ s m, m ∈ (links s).schemeMembers ↔ s ∈ (links m).inSchemes
  scheme_kind : ∀ s m, m ∈ (links s).schemeMembers → kinds s = .conceptScheme
  top_member : ∀ s m, m ∈ (links s).topConcepts → m ∈ (links s).schemeMembers
  top_kind : ∀ s m, m ∈ (links s).topConcepts → kinds m = .concept
  member_iff : ∀ k m, m ∈ (links k).members ↔ k ∈ (links m).inCollections
  collection_kind : ∀ k m, m ∈ (links k).members → (kinds k).isCollection = true
  ordered_member : ∀ k order, (links k).orderedMembers = some order →
    ∀ m ∈ order, m ∈ (links k).members

namespace Linked

variable {kinds : ResourceId → Kind} {links : ResourceId → Links}

theorem start : Linked (fun _ => .unknown) (fun _ => {}) := by
  constructor <;> simp

/-! ## Kinds -/

/-- A kind is set on what was unknown, or an order is added to a collection. -/
theorem set_cases {current requested kind : Kind}
    (h : current.transition requested = .set kind) :
    kind = requested ∧
      (current = .unknown ∨ (current = .collection ∧ kind = .orderedCollection)) := by
  cases current <;> cases requested <;> simp_all [Kind.transition]

/-- The laws survive when a kind moves along an allowed transition. -/
theorem settle {id : ResourceId} {requested kind : Kind} (h : Linked kinds links)
    (hset : (kinds id).transition requested = .set kind) :
    Linked (Function.update kinds id kind) links := by
  obtain ⟨_, hbefore⟩ := set_cases hset
  -- concepts and schemes have no transition to another kind
  have hfixed : ∀ a, kinds a = .concept ∨ kinds a = .conceptScheme →
      Function.update kinds id kind a = kinds a := by
    intro a ha
    refine Function.update_of_ne ?_ _ _
    rintro rfl
    rcases hbefore with hb | ⟨hb, _⟩ <;> simp [hb] at ha
  have hconcept : ∀ a, kinds a = .concept → Function.update kinds id kind a = .concept :=
    fun a ha => (hfixed a (.inl ha)).trans ha
  have hscheme : ∀ a, kinds a = .conceptScheme →
      Function.update kinds id kind a = .conceptScheme := fun a ha => (hfixed a (.inr ha)).trans ha
  have hcollection : ∀ a, (kinds a).isCollection = true →
      (Function.update kinds id kind a).isCollection = true := by
    intro a ha
    by_cases heq : a = id
    · subst heq
      rcases hbefore with hb | ⟨_, rfl⟩
      · simp [hb, Kind.isCollection] at ha
      · simp [Kind.isCollection]
    · rw [Function.update_of_ne heq, ha]
  exact
    { h with
      narrower_kinds := fun a b hb =>
        ⟨hconcept a (h.narrower_kinds a b hb).1, hconcept b (h.narrower_kinds a b hb).2⟩
      scheme_kind := fun s m hm => hscheme s (h.scheme_kind s m hm)
      top_kind := fun s m hm => hconcept m (h.top_kind s m hm)
      collection_kind := fun k m hm => hcollection k (h.collection_kind k m hm) }

/-- Heads of member lists have no part in the laws, and orders have to list members. -/
theorem relist (heads : ResourceId → Option Rdf.Node)
    (orders : ResourceId → Option (List ResourceId)) (h : Linked kinds links)
    (horders : ∀ k order, orders k = some order → ∀ m ∈ order, m ∈ (links k).members) :
    Linked kinds fun id =>
      { links id with memberList := heads id, orderedMembers := orders id } where
  narrower_iff := h.narrower_iff
  narrower_kinds := h.narrower_kinds
  schemeMember_iff := h.schemeMember_iff
  scheme_kind := h.scheme_kind
  top_member := h.top_member
  top_kind := h.top_kind
  member_iff := h.member_iff
  collection_kind := h.collection_kind
  ordered_member := horders

end Linked

/-! ## Relating two resources -/

/-- The links after `lower` was made narrower than `upper`. -/
def narrowed (upper lower : ResourceId) (links : ResourceId → Links) (id : ResourceId) : Links :=
  { links id with
    narrower := if id = upper then (links id).narrower.insert lower else (links id).narrower
    broader := if id = lower then (links id).broader.insert upper else (links id).broader }

/-- The links after `member` was put into `scheme`, as a top concept or not. -/
def joined (member scheme : ResourceId) (top : Bool) (links : ResourceId → Links)
    (id : ResourceId) : Links :=
  { links id with
    inSchemes := if id = member then (links id).inSchemes.insert scheme else (links id).inSchemes
    schemeMembers :=
      if id = scheme then (links id).schemeMembers.insert member else (links id).schemeMembers
    topConcepts :=
      if id = scheme ∧ top = true then (links id).topConcepts.insert member
      else (links id).topConcepts }

/-- The links after `member` was put into `collection`. -/
def gathered (collection member : ResourceId) (links : ResourceId → Links) (id : ResourceId) :
    Links :=
  { links id with
    members := if id = collection then (links id).members.insert member else (links id).members
    inCollections :=
      if id = member then (links id).inCollections.insert collection
      else (links id).inCollections }

/-- What a set holds to which an id may have been added. -/
theorem mem_ite_insert {p : Prop} [Decidable p] {id other : ResourceId} {s : IdSet} :
    other ∈ (if p then s.insert id else s) ↔ (p ∧ other = id) ∨ other ∈ s := by
  by_cases h : p
  · simp [h]
  · simp [h]

namespace Linked

variable {kinds : ResourceId → Kind} {links : ResourceId → Links}

/-- The laws survive when two concepts are related. -/
theorem narrowed {upper lower : ResourceId} (h : Linked kinds links)
    (hupper : kinds upper = .concept) (hlower : kinds lower = .concept) :
    Linked kinds (Thesaurus.narrowed upper lower links) :=
  { h with
    narrower_iff := fun a b => by
      show b ∈ (if a = upper then _ else _) ↔ a ∈ (if b = lower then _ else _)
      rw [mem_ite_insert, mem_ite_insert, h.narrower_iff a b, and_comm]
    narrower_kinds := fun a b hb => by
      rcases mem_ite_insert.1 hb with ⟨rfl, rfl⟩ | hb
      · exact ⟨hupper, hlower⟩
      · exact h.narrower_kinds a b hb }

/-- The laws survive when a resource is put into a scheme. -/
theorem joined {member scheme : ResourceId} {top : Bool} (h : Linked kinds links)
    (hscheme : kinds scheme = .conceptScheme) (htop : top = true → kinds member = .concept) :
    Linked kinds (Thesaurus.joined member scheme top links) :=
  { h with
    schemeMember_iff := fun s m => by
      show m ∈ (if s = scheme then _ else _) ↔ s ∈ (if m = member then _ else _)
      rw [mem_ite_insert, mem_ite_insert, h.schemeMember_iff s m, and_comm]
    scheme_kind := fun s m hm => by
      rcases mem_ite_insert.1 hm with ⟨rfl, _⟩ | hm
      · exact hscheme
      · exact h.scheme_kind s m hm
    top_member := fun s m hm => by
      show m ∈ (if s = scheme then _ else _)
      rw [mem_ite_insert]
      rcases mem_ite_insert.1 hm with ⟨⟨hs, _⟩, hm⟩ | hm
      · exact .inl ⟨hs, hm⟩
      · exact .inr (h.top_member s m hm)
    top_kind := fun s m hm => by
      rcases mem_ite_insert.1 hm with ⟨⟨_, ht⟩, rfl⟩ | hm
      · exact htop ht
      · exact h.top_kind s m hm }

/-- The laws survive when a resource is put into a collection. -/
theorem gathered {collection member : ResourceId} (h : Linked kinds links)
    (hcollection : (kinds collection).isCollection = true) :
    Linked kinds (Thesaurus.gathered collection member links) :=
  { h with
    member_iff := fun k m => by
      show m ∈ (if k = collection then _ else _) ↔ k ∈ (if m = member then _ else _)
      rw [mem_ite_insert, mem_ite_insert, h.member_iff k m, and_comm]
    collection_kind := fun k m hm => by
      rcases mem_ite_insert.1 hm with ⟨rfl, _⟩ | hm
      · exact hcollection
      · exact h.collection_kind k m hm
    ordered_member := fun k order ho m hm =>
      mem_ite_insert.2 (.inr (h.ordered_member k order ho m hm)) }

end Linked

end Thesaurus
