import Mathlib.Logic.Function.Basic
import Thesaurus.Graph.Ingest

/-!
# What a change does to kinds and links

Kinds and links are read through `kindOf` and `linksOf`, which answer for every id. Each change of
a graph is described here by what it does to these two functions, and to the index of the nodes,
which has to find each resource and nothing else after every change.

- `ResourceGraph.kindOf_eq`, `ResourceGraph.linksOf_eq`: what they give for a resource.
- `ResourceGraph.requireAll_ok`: when all of some ids can be looked up.
- `Indexed`: the index and the resources agree.
- `Indexed.ensure`, `Indexed.update`, `Indexed.request`: they still do after a change.
- `ResourceGraph.kindOf_ensure`, `ResourceGraph.linksOf_ensure`: a new resource changes neither.
- `ResourceGraph.request_eq`: what a request for a kind does to a graph as a whole.
- `ResourceGraph.kindOf_request`, `ResourceGraph.linksOf_updateLinks`: the changes that do.
-/

namespace Thesaurus

open Rdf (Node Relation)

namespace ResourceGraph

variable {g : ResourceGraph} {id other : ResourceId} {n : Node} {r : Resource}

/-! ## Looking up -/

theorem kindOf_eq (h : g.resources[id]? = some r) : g.kindOf id = r.kind := by
  simp [kindOf, h]

theorem linksOf_eq (h : g.resources[id]? = some r) : g.linksOf id = r.links := by
  simp [linksOf, h]

theorem resource_eq (h : g.resources[id]? = some r) : g.resource id = .ok r := by
  simp [resource, h]

/-- Kinds are read of the resources only. -/
theorem kindOf_congr {g' : ResourceGraph} (h : g'.resources = g.resources) :
    g'.kindOf = g.kindOf := by
  funext id
  rw [kindOf, kindOf, h]

/-- So are links. -/
theorem linksOf_congr {g' : ResourceGraph} (h : g'.resources = g.resources) :
    g'.linksOf = g.linksOf := by
  funext id
  rw [linksOf, linksOf, h]

theorem exists_resource (h : id < g.size) : ∃ r, g.resources[id]? = some r :=
  ⟨_, Array.getElem?_eq_getElem h⟩

theorem get_of_size_le (h : g.size ≤ id) : g.resources[id]? = none :=
  Array.getElem?_eq_none h

theorem lt_size (h : g.resources[id]? = some r) : id < g.size := by
  by_contra hlt
  rw [get_of_size_le (Nat.le_of_not_lt hlt)] at h
  cases h

theorem mem_resources_iff :
    r ∈ g.resources.toList ↔ ∃ i : ResourceId, g.resources[i]? = some r := by
  rw [Array.mem_toList_iff, Array.mem_iff_getElem?]

/-- Only a resource of the graph has a kind. -/
theorem lt_size_of_kindOf (h : g.kindOf id ≠ .unknown) : id < g.size := by
  by_contra hlt
  refine h ?_
  simp [kindOf, get_of_size_le (Nat.le_of_not_lt hlt)]

theorem lt_size_of_isKnown (h : (g.kindOf id).isKnown = true) : id < g.size := by
  refine lt_size_of_kindOf fun hunknown => ?_
  rw [hunknown] at h
  cases h

/-- Only a resource of the graph has links. -/
theorem lt_size_of_linksOf (h : g.linksOf id ≠ {}) : id < g.size := by
  by_contra hlt
  refine h ?_
  simp [linksOf, get_of_size_le (Nat.le_of_not_lt hlt)]

theorem requireAll_ok {ids : List ResourceId} (h : ∀ id ∈ ids, id < g.size) :
    g.requireAll ids = .ok () := by
  induction ids with
  | nil => rfl
  | cons first rest ih =>
    obtain ⟨r, hfound⟩ := exists_resource (h first List.mem_cons_self)
    rw [requireAll, resource_eq hfound]
    exact ih fun id hmem => h id (List.mem_cons_of_mem _ hmem)

/-! ## Changing a resource -/

theorem get_update (change : Resource → Resource) :
    (g.update id change).resources[other]? =
      if other = id then g.resources[other]?.map change else g.resources[other]? := by
  rw [update, Array.getElem?_modify]
  by_cases h : other = id
  · rw [if_pos h.symm, if_pos h]
  · rw [if_neg (Ne.symm h), if_neg h]

/-- What a change makes of other resources does not matter. -/
theorem update_congr {change change' : Resource → Resource}
    (h : ∀ r, g.resources[id]? = some r → change r = change' r) :
    g.update id change = g.update id change' := by
  have hsame : (g.update id change).resources = (g.update id change').resources := by
    refine Array.ext_getElem? fun i => ?_
    rw [get_update, get_update]
    by_cases hhere : i = id
    · subst hhere
      rw [if_pos rfl, if_pos rfl]
      cases hfound : g.resources[i]? with
      | none => rfl
      | some r => exact congrArg some (h r hfound)
    · rw [if_neg hhere, if_neg hhere]
  show { g with resources := (g.update id change).resources } = g.update id change'
  rw [hsame]
  rfl

/-- A change that leaves the resource as it is changes nothing. -/
theorem update_eq_self {change : Resource → Resource}
    (h : ∀ r, g.resources[id]? = some r → change r = r) : g.update id change = g := by
  have hsame : (g.update id fun r => r).resources = g.resources := by
    refine Array.ext_getElem? fun i => ?_
    rw [get_update, Option.map_id', ite_self]
  rw [update_congr h]
  show { g with resources := (g.update id fun r => r).resources } = g
  rw [hsame]

@[simp] theorem size_update (change : Resource → Resource) : (g.update id change).size = g.size :=
  Array.size_modify

@[simp] theorem size_updateLinks (change : Links → Links) :
    (g.updateLinks id change).size = g.size :=
  size_update _

/-- Changing a resource changes no kind if its own stays. -/
theorem kindOf_update {change : Resource → Resource} (hkind : ∀ r, (change r).kind = r.kind) :
    (g.update id change).kindOf = g.kindOf := by
  funext other
  rw [kindOf, kindOf, get_update]
  split <;> cases g.resources[other]? <;> simp [hkind]

@[simp] theorem kindOf_updateLinks (change : Links → Links) :
    (g.updateLinks id change).kindOf other = g.kindOf other := by
  have hsame : (g.updateLinks id change).kindOf = g.kindOf := kindOf_update fun _ => rfl
  rw [hsame]

theorem linksOf_updateLinks (change : Links → Links) (hid : id < g.size) :
    (g.updateLinks id change).linksOf other =
      if other = id then change (g.linksOf id) else g.linksOf other := by
  rw [linksOf, updateLinks, get_update]
  by_cases h : other = id
  · subst h
    obtain ⟨r, hfound⟩ := exists_resource hid
    simp [hfound, linksOf]
  · rw [if_neg h, if_neg h, linksOf]

/-- The graph with the kind of one resource set. -/
theorem kindOf_setKind (kind : Kind) (hid : id < g.size) :
    (g.update id fun r => { r with kind := kind }).kindOf other =
      if other = id then kind else g.kindOf other := by
  rw [kindOf, get_update]
  by_cases h : other = id
  · subst h
    obtain ⟨r, hfound⟩ := exists_resource hid
    simp [hfound]
  · rw [if_neg h, if_neg h, kindOf]

/-- Changing a resource changes no links if its own stay. -/
theorem linksOf_update {change : Resource → Resource} (hlinks : ∀ r, (change r).links = r.links) :
    (g.update id change).linksOf = g.linksOf := by
  funext other
  rw [linksOf, linksOf, get_update]
  split <;> cases g.resources[other]? <;> simp [hlinks]

theorem linksOf_setKind (kind : Kind) :
    (g.update id fun r => { r with kind := kind }).linksOf other = g.linksOf other := by
  have hsame : (g.update id fun r => { r with kind := kind }).linksOf = g.linksOf :=
    linksOf_update fun _ => rfl
  rw [hsame]

/-- The index is left alone when a resource changes. -/
@[simp] theorem lookup_update (change : Resource → Resource) :
    (g.update id change).lookup = g.lookup :=
  rfl

@[simp] theorem lookup_updateLinks (change : Links → Links) :
    (g.updateLinks id change).lookup = g.lookup :=
  rfl

/-! ## Adding a resource -/

/-- A node that is added is found at the next id, and the others are found as before. -/
theorem lookup_ensure {m : Node} :
    (g.ensure n).lookup m = if m = n then some (g.idOf n) else g.lookup m := by
  unfold ensure idOf
  cases hfound : g.lookup n with
  | some i =>
    rw [if_pos (by rfl)]
    by_cases hsame : m = n
    · rw [if_pos hsame, hsame, hfound, Option.getD_some]
    · rw [if_neg hsame]
  | none =>
    rw [if_neg (by simp)]
    exact Table.get?_insert

/-- A resource is added at the end or not at all. -/
theorem get_ensure : (g.ensure n).resources[other]? =
    if g.lookup n = none ∧ other = g.size then some (g.newResource n) else g.resources[other]? := by
  unfold ensure
  cases hfound : g.lookup n with
  | some id => simp
  | none => simp [Array.getElem?_push, size]

/-- A new resource is of no kind, like an id without a resource. -/
@[simp] theorem kindOf_ensure : (g.ensure n).kindOf other = g.kindOf other := by
  rw [kindOf, get_ensure]
  by_cases h : g.lookup n = none ∧ other = g.size
  · rw [if_pos h, kindOf, h.2, get_of_size_le (Nat.le_refl _)]
    rfl
  · rw [if_neg h, kindOf]

/-- A new resource has no links, like an id without a resource. -/
@[simp] theorem linksOf_ensure : (g.ensure n).linksOf other = g.linksOf other := by
  rw [linksOf, get_ensure]
  by_cases h : g.lookup n = none ∧ other = g.size
  · rw [if_pos h, linksOf, h.2, get_of_size_le (Nat.le_refl _)]
    rfl
  · rw [if_neg h, linksOf]

theorem size_le_ensure : g.size ≤ (g.ensure n).size := by
  unfold ensure
  split
  · exact Nat.le_refl _
  · simp [size]

@[simp] theorem counters_ensure : (g.ensure n).counters = g.counters := by
  unfold ensure
  split <;> rfl

@[simp] theorem configuration_ensure : (g.ensure n).configuration = g.configuration := by
  unfold ensure
  split <;> rfl

end ResourceGraph

/-! ## The index -/

/-- Resources are where their ids say, and the index finds each of them and nothing else. -/
structure Indexed (g : ResourceGraph) : Prop where
  id_eq : ∀ (i : ResourceId) r, g.resources[i]? = some r → r.id = i
  lookup_iff : ∀ n (i : ResourceId), g.lookup n = some i ↔
    ∃ r, g.resources[i]? = some r ∧ r.node = n

namespace ResourceGraph

variable {g : ResourceGraph} {i j : ResourceId} {m n : Node} {r : Resource}

/-- What is found is a resource of the node. -/
theorem lookup_eq_some (h : Indexed g) (hn : g.lookup n = some i) :
    ∃ r, g.resources[i]? = some r ∧ r.node = n :=
  (h.lookup_iff n i).1 hn

theorem lookup_lt (h : Indexed g) (hn : g.lookup n = some i) : i < g.size := by
  obtain ⟨r, hr, _⟩ := lookup_eq_some h hn
  exact lt_size hr

/-- Every resource is found. -/
theorem lookup_node (h : Indexed g) (hr : g.resources[i]? = some r) : g.lookup r.node = some i :=
  (h.lookup_iff r.node i).2 ⟨r, hr, rfl⟩

/-- A node that is not found has no resource. -/
theorem lookup_eq_none (h : Indexed g) (hn : g.lookup n = none) (hr : g.resources[i]? = some r) :
    r.node ≠ n := by
  rintro rfl
  rw [lookup_node h hr] at hn
  cases hn

/-- Different nodes are found at different ids. -/
theorem eq_of_lookup (h : Indexed g) (hm : g.lookup m = some i) (hn : g.lookup n = some i) :
    m = n := by
  obtain ⟨r, hr, rfl⟩ := lookup_eq_some h hm
  obtain ⟨s, hs, rfl⟩ := lookup_eq_some h hn
  rw [hr, Option.some.injEq] at hs
  rw [hs]

theorem idOf_lt_ensure (h : Indexed g) : g.idOf n < (g.ensure n).size := by
  unfold idOf
  cases hfound : g.lookup n with
  | some i => exact Nat.lt_of_lt_of_le (lookup_lt h hfound) size_le_ensure
  | none => simp [ensure, hfound, size]

end ResourceGraph

namespace Indexed

variable {g g' : ResourceGraph} {id : ResourceId}

/-- A node has one resource. -/
theorem node_inj (h : Indexed g) (i j : ResourceId) (r s : Resource)
    (hr : g.resources[i]? = some r) (hs : g.resources[j]? = some s) (hnode : r.node = s.node) :
    i = j := by
  have hi := ResourceGraph.lookup_node h hr
  have hj := ResourceGraph.lookup_node h hs
  rw [hnode, hj, Option.some.injEq] at hi
  exact hi.symm

/-- Only resources and index matter. -/
theorem congr (h : Indexed g) (hresources : g'.resources = g.resources)
    (hindex : g'.index = g.index) : Indexed g' where
  id_eq := hresources ▸ h.id_eq
  lookup_iff := fun n i => by
    rw [ResourceGraph.lookup, hindex, hresources]
    exact h.lookup_iff n i

theorem new (c : Configuration) : Indexed (.new c) where
  id_eq := fun i r hr => by simp [ResourceGraph.new] at hr
  lookup_iff := fun n i => by
    constructor
    · intro hn
      cases hn
    · rintro ⟨r, hr, _⟩
      simp [ResourceGraph.new] at hr

/-- Resources may change in their places if the index is left alone. -/
theorem of_places (h : Indexed g) (hindex : g'.index = g.index)
    (hplaces : ∀ i : ResourceId, ∃ change : Resource → Resource,
      g'.resources[i]? = g.resources[i]?.map change ∧
        ∀ r, (change r).id = r.id ∧ (change r).node = r.node) : Indexed g' := by
  constructor
  · intro i r' hr'
    obtain ⟨change, hplace, hkept⟩ := hplaces i
    rw [hplace] at hr'
    obtain ⟨r, hr, rfl⟩ := Option.map_eq_some_iff.1 hr'
    rw [(hkept r).1, h.id_eq i r hr]
  · intro n i
    obtain ⟨change, hplace, hkept⟩ := hplaces i
    rw [ResourceGraph.lookup, hindex, hplace]
    refine (h.lookup_iff n i).trans ⟨?_, ?_⟩
    · rintro ⟨r, hr, hnode⟩
      exact ⟨change r, by rw [hr, Option.map_some], (hkept r).2.trans hnode⟩
    · rintro ⟨r', hr', hnode⟩
      obtain ⟨r, hr, rfl⟩ := Option.map_eq_some_iff.1 hr'
      exact ⟨r, hr, (hkept r).2.symm.trans hnode⟩

theorem update {change : Resource → Resource} (h : Indexed g) (hid : ∀ r, (change r).id = r.id)
    (hnode : ∀ r, (change r).node = r.node) : Indexed (g.update id change) := by
  refine h.of_places rfl fun i => ?_
  rw [ResourceGraph.get_update]
  by_cases hhere : i = id
  · rw [if_pos hhere]
    exact ⟨change, rfl, fun r => ⟨hid r, hnode r⟩⟩
  · rw [if_neg hhere]
    exact ⟨fun r => r, Option.map_id'.symm, fun _ => ⟨rfl, rfl⟩⟩

theorem updateLinks (change : Links → Links) (h : Indexed g) : Indexed (g.updateLinks id change) :=
  h.update (fun _ => rfl) fun _ => rfl

/-- A node that is not found is added and entered, so that it is found from now on. -/
theorem ensure {n : Node} (h : Indexed g) : Indexed (g.ensure n) := by
  constructor
  · intro i r hr
    rw [ResourceGraph.get_ensure] at hr
    split at hr
    · next hnew =>
      cases hr
      exact hnew.2.symm
    · exact h.id_eq i r hr
  · intro m i
    rw [ResourceGraph.lookup_ensure, ResourceGraph.get_ensure, ResourceGraph.idOf]
    cases hfound : g.lookup n with
    | some j =>
      have hself : (if m = n then some j else g.lookup m) = g.lookup m := by
        by_cases hsame : m = n
        · rw [if_pos hsame, hsame, hfound]
        · rw [if_neg hsame]
      simpa [hself] using h.lookup_iff m i
    | none =>
      by_cases hlast : i = g.size
      · -- the new id belongs to the new resource, and to no node before
        have hunused : ∀ k, g.lookup k ≠ some g.size := fun k hk =>
          Nat.lt_irrefl _ (ResourceGraph.lookup_lt h hk)
        by_cases hsame : m = n
        · simp [hsame, hlast, ResourceGraph.newResource]
        · simp [hsame, hlast, hunused, ResourceGraph.newResource, Ne.symm hsame]
      · by_cases hsame : m = n
        · -- no resource stood for the node before
          have hnone : ∀ r, g.resources[i]? = some r → r.node ≠ n := fun r hr =>
            ResourceGraph.lookup_eq_none h hfound hr
          simpa [hsame, hlast, Ne.symm hlast] using hnone
        · simp [hsame, hlast, h.lookup_iff]

end Indexed

/-! ## Asking for a kind -/

namespace Kind

/-- The conflict that a request leaves behind, if it is refused. -/
def refusal (n : Node) (current requested : Kind) (cause : Relation) : List Issue :=
  if current.transition requested = .conflict
    then [.typeConflict n current requested cause] else []

theorem kind_of_mem_refusal {n : Node} {current requested : Kind} {cause : Relation} {i : Issue}
    (h : i ∈ current.refusal n requested cause) : i.kind = .typeConflict := by
  unfold refusal at h
  split at h
  · rw [List.mem_singleton.1 h]
    rfl
  · cases h

end Kind

namespace ResourceGraph

variable {g : ResourceGraph} {id other : ResourceId} {requested : Kind} {cause : Relation}

/-- The conflict that a request for the kind of a resource leaves behind, if it is refused. -/
def refusal (g : ResourceGraph) (id : ResourceId) (requested : Kind) (cause : Relation) :
    List Issue :=
  g.resources[id]?.elim [] fun r => r.kind.refusal r.node requested cause

/-- It is a conflict, whatever was asked. -/
theorem kind_of_mem_refusal {i : Issue} (h : i ∈ g.refusal id requested cause) :
    i.kind = .typeConflict := by
  unfold refusal at h
  cases hfound : g.resources[id]? with
  | none => simp [hfound] at h
  | some r =>
    rw [hfound, Option.elim_some] at h
    exact Kind.kind_of_mem_refusal h

/-- Nothing is left behind just if the resource may be of the kind. -/
theorem refusal_eq_nil_iff :
    g.refusal id requested cause = [] ↔ g.admits id requested = true := by
  unfold refusal admits kindOf
  cases g.resources[id]? with
  | none =>
    have hfits : Kind.unknown.transition requested ≠ .conflict := by cases requested <;> decide
    simp [hfits]
  | some r => simp [Kind.refusal]

/-- A request turns the kind of a resource, and a conflict is recorded if it is refused. -/
theorem request_eq (g : ResourceGraph) (id : ResourceId) (requested : Kind) (cause : Relation) :
    g.request id requested cause =
      { g.update id (fun r => { r with kind := r.kind.after requested }) with
        issues := g.issues ++ g.refusal id requested cause } := by
  unfold request refusal
  cases hfound : g.resources[id]? with
  | none =>
    have hsame : g.update id (fun r => { r with kind := r.kind.after requested }) = g :=
      update_eq_self fun r hr => by
        rw [hfound] at hr
        cases hr
    rw [hsame]
    simp
  | some r =>
    have hturned : g.update id (fun r => { r with kind := r.kind.after requested }) =
        g.update id fun s => { s with kind := r.kind.after requested } :=
      update_congr fun s hs => by
        rw [hfound] at hs
        cases hs
        rfl
    -- a request that changes nothing leaves the resource as it was
    have hkept (hunchanged : r.kind.after requested = r.kind) :
        g.update id (fun s => { s with kind := r.kind.after requested }) = g :=
      update_eq_self fun s hs => by
        rw [hfound] at hs
        cases hs
        rw [hunchanged]
    rw [hturned]
    cases hmade : r.kind.transition requested with
    | keep =>
      rw [hkept (by rw [Kind.after, hmade])]
      simp [Kind.refusal, hmade]
    | set kind =>
      simp [Kind.refusal, Kind.after, hmade]
      rfl
    | conflict =>
      rw [hkept (by rw [Kind.after, hmade])]
      simp [Kind.refusal, hmade, report]

/-- A request turns the kind of one resource, and leaves the others alone. -/
theorem get_request : (g.request id requested cause).resources[other]? =
    if other = id then g.resources[other]?.map fun r => { r with kind := r.kind.after requested }
    else g.resources[other]? := by
  rw [request_eq]
  exact get_update _

@[simp] theorem size_request : (g.request id requested cause).size = g.size := by
  rw [request_eq]
  exact size_update _

/-- The index is left alone. -/
@[simp] theorem lookup_request : (g.request id requested cause).lookup = g.lookup := by
  rw [request_eq]
  rfl

theorem indexed_request (h : Indexed g) : Indexed (g.request id requested cause) := by
  have hturned : Indexed (g.update id fun r => { r with kind := r.kind.after requested }) :=
    h.update (fun _ => rfl) fun _ => rfl
  rw [request_eq]
  exact hturned.congr rfl rfl

theorem kindOf_request (hid : id < g.size) : (g.request id requested cause).kindOf other =
    if other = id then (g.kindOf id).after requested else g.kindOf other := by
  obtain ⟨r, hfound⟩ := exists_resource hid
  rw [kindOf, get_request]
  by_cases h : other = id
  · subst h
    simp [hfound, kindOf]
  · rw [if_neg h, if_neg h, kindOf]

end ResourceGraph

end Thesaurus
