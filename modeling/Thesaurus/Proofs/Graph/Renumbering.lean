import Mathlib.Data.List.Basic
import Mathlib.Data.List.Induction
import Thesaurus.Graph.Finish
import Thesaurus.Proofs.Graph.Sound

/-!
# Renumbering

When resources of unknown kind are left out, the others move up. Each has a new id, no two the same,
and everything that holds of new ids held of old ones. The index is emptied and filled again with
the new ids, so that it finds what is left and nothing else.

- `ResourceGraph.newId`: the new id of a resource.
- `ResourceGraph.newId_inj`: different resources have different new ids.
- `ResourceGraph.kept_eq_self`: nothing moves if nothing is left out.
- `ResourceGraph.get?_indexOf`: what an index that is made anew finds.
- `ResourceGraph.get_prune`: what stands at an id afterwards.
- `ResourceGraph.indexed_prune`: index and resources agree afterwards.
-/

namespace Thesaurus

open Rdf (Node)

namespace ResourceGraph

/-- The place of a flag that is set is the number of set flags before it. -/
theorem positions_get (next : Nat) (flags : List Bool) (i : Nat) :
    (positions next flags)[i]? =
      flags[i]?.map fun flag => if flag then some (next + (flags.take i).count true) else none := by
  induction flags generalizing next i with
  | nil => rfl
  | cons flag rest ih =>
    cases i with
    | zero => cases flag <;> simp [positions]
    | succ i =>
      cases flag
      · simp [positions, ih]
      · simp only [positions, List.getElem?_cons_succ, ih, List.take_succ_cons,
          List.count_cons_self]
        rw [Nat.add_assoc, Nat.add_comm 1]

/-- What stands at a place of a filtered list stood before with that many kept ones ahead. -/
theorem get_filter_iff {α : Type} {p : α → Bool} {a : α} {l : List α} {j : Nat} :
    (l.filter p)[j]? = some a ↔
      ∃ i : Nat, l[i]? = some a ∧ p a = true ∧ ((l.map p).take i).count true = j := by
  -- by induction on the list: what is left out moves all later elements up by one
  induction l generalizing j with
  | nil => simp
  | cons b rest ih =>
    constructor
    · intro h
      by_cases hb : p b = true
      · rw [List.filter_cons_of_pos hb] at h
        cases j with
        | zero =>
          rw [List.getElem?_cons_zero, Option.some.injEq] at h
          exact ⟨0, by simp [h], h ▸ hb, rfl⟩
        | succ j =>
          obtain ⟨i, hi, ha, hcount⟩ := ih.1 h
          exact ⟨i + 1, by simpa using hi, ha, by simpa [hb] using hcount⟩
      · rw [List.filter_cons_of_neg hb] at h
        obtain ⟨i, hi, ha, hcount⟩ := ih.1 h
        exact ⟨i + 1, by simpa using hi, ha, by simpa [hb] using hcount⟩
    · rintro ⟨i, hi, ha, hcount⟩
      cases i with
      | zero =>
        rw [List.getElem?_cons_zero, Option.some.injEq] at hi
        subst hi
        rw [List.filter_cons_of_pos ha, ← hcount]
        rfl
      | succ i =>
        rw [List.getElem?_cons_succ] at hi
        rw [List.map_cons, List.take_succ_cons] at hcount
        by_cases hb : p b = true
        · rw [hb, List.count_cons_self] at hcount
          rw [List.filter_cons_of_pos hb, ← hcount, List.getElem?_cons_succ]
          exact ih.2 ⟨i, hi, ha, rfl⟩
        · rw [List.filter_cons_of_neg hb]
          refine ih.2 ⟨i, hi, ha, ?_⟩
          simpa [hb] using hcount

variable {g : ResourceGraph}

/-- The id that a resource has after the unknown ones are left out. -/
def newId (g : ResourceGraph) (id : ResourceId) : Option ResourceId :=
  g.newIds[id]?.join

/-- Known resources have new ids: the number of known ones before them. -/
theorem newId_eq_some {i j : ResourceId} : g.newId i = some j ↔
    ∃ r, g.resources[i]? = some r ∧ r.kind.isKnown = true ∧
      ((g.resources.toList.map (·.kind.isKnown)).take i).count true = j := by
  unfold newId newIds
  rw [List.getElem?_toArray, positions_get]
  cases hfound : g.resources[i]? with
  | none => simp [hfound]
  | some r => by_cases hknown : r.kind.isKnown = true <;> simp [hfound, hknown]

theorem exists_newId {i : ResourceId} {r : Resource} (hr : g.resources[i]? = some r)
    (hknown : r.kind.isKnown = true) : ∃ j, g.newId i = some j :=
  ⟨_, newId_eq_some.2 ⟨r, hr, hknown, rfl⟩⟩

/-- The known resources ahead of a later known one are more. -/
theorem count_take_lt {flags : List Bool} {i j : Nat} (hij : i < j) (hi : flags[i]? = some true) :
    (flags.take i).count true < (flags.take j).count true := by
  obtain ⟨k, rfl⟩ := Nat.exists_eq_add_of_lt hij
  -- the later prefix is the earlier one, then the set flag, then what is between
  have hsplit : flags.take (i + k + 1) = flags.take i ++ true :: (flags.drop (i + 1)).take k := by
    rw [Nat.add_assoc, List.take_add, Nat.add_comm k 1, List.take_add, List.drop_drop]
    obtain ⟨hlt, hget⟩ := List.getElem?_eq_some_iff.1 hi
    rw [List.drop_eq_getElem_cons hlt, hget]
    simp
  rw [hsplit, List.count_append, List.count_cons_self]
  omega

/-- Different resources have different new ids. -/
theorem newId_inj {i i' j : ResourceId} (hi : g.newId i = some j) (hi' : g.newId i' = some j) :
    i = i' := by
  obtain ⟨r, hr, hknown, hcount⟩ := newId_eq_some.1 hi
  obtain ⟨r', hr', hknown', hcount'⟩ := newId_eq_some.1 hi'
  have hflag : (g.resources.toList.map (·.kind.isKnown))[i]? = some true := by simp [hr, hknown]
  have hflag' : (g.resources.toList.map (·.kind.isKnown))[i']? = some true := by simp [hr', hknown']
  rcases Nat.lt_trichotomy i i' with hlt | heq | hgt
  · exact absurd (count_take_lt hlt hflag) (by omega)
  · exact heq
  · exact absurd (count_take_lt hgt hflag') (by omega)

/-- A resource with its new id and its links renamed. -/
def renumbered (g : ResourceGraph) (j : ResourceId) (r : Resource) : Resource :=
  { r with id := j, links := r.links.rename g.newId }

/-- The known resources in their order, each with its new id. -/
def kept (g : ResourceGraph) : Array Resource :=
  g.resources.filterMap fun r => (g.newId r.id).map fun id => g.renumbered id r

theorem toList_kept (h : Indexed g) : g.kept.toList =
    (g.resources.toList.filter (·.kind.isKnown)).map fun r =>
      g.renumbered ((g.newId r.id).getD 0) r := by
  -- only known resources have new ids, so that the others are filtered out first
  have hfilter : g.kept.toList =
      (g.resources.toList.filter (·.kind.isKnown)).filterMap fun r =>
        (g.newId r.id).map fun id => g.renumbered id r := by
    rw [kept, Array.toList_filterMap, List.filterMap_filter]
    refine List.filterMap_congr fun r hr => ?_
    obtain ⟨i, hi⟩ := mem_resources_iff.1 hr
    by_cases hknown : r.kind.isKnown = true
    · rw [if_pos hknown]
    · rw [if_neg hknown, h.id_eq i r hi]
      cases hnew : g.newId i with
      | none => rfl
      | some j =>
        obtain ⟨s, hs, hs', _⟩ := newId_eq_some.1 hnew
        rw [hi, Option.some.injEq] at hs
        exact absurd (hs ▸ hs') hknown
  -- and those that are left all have one, so that this is a plain map
  rw [hfilter, ← List.filterMap_eq_map]
  refine List.filterMap_congr fun r hr => ?_
  obtain ⟨hmem, hknown⟩ := List.mem_filter.1 hr
  obtain ⟨i, hi⟩ := mem_resources_iff.1 hmem
  obtain ⟨j, hj⟩ := exists_newId hi hknown
  rw [Function.comp_apply, h.id_eq i r hi, hj]
  rfl

/-- What stands at an id among them is the resource that has this new id. -/
theorem get_kept (h : Indexed g) {j : ResourceId} {r' : Resource} : g.kept[j]? = some r' ↔
    ∃ i r, g.resources[i]? = some r ∧ g.newId i = some j ∧ r' = g.renumbered j r := by
  rw [← Array.getElem?_toList, toList_kept h, List.getElem?_map, Option.map_eq_some_iff]
  constructor
  · rintro ⟨r, hr, rfl⟩
    obtain ⟨i, hi, hknown, hcount⟩ := get_filter_iff.1 hr
    have hfound : g.resources[i]? = some r := by simpa using hi
    have hnew : g.newId i = some j := newId_eq_some.2 ⟨r, hfound, hknown, hcount⟩
    exact ⟨i, r, hfound, hnew, by rw [h.id_eq i r hfound, hnew]; rfl⟩
  · rintro ⟨i, r, hfound, hnew, rfl⟩
    obtain ⟨s, hs, hknown, hcount⟩ := newId_eq_some.1 hnew
    rw [hfound, Option.some.injEq] at hs
    subst hs
    exact ⟨r, get_filter_iff.2 ⟨i, by simpa using hfound, hknown, hcount⟩,
      by rw [h.id_eq i r hfound, hnew]; rfl⟩

/-! ## Nothing to leave out -/

/-- If all resources are known, none moves. -/
theorem newId_eq_self (hall : g.resources.all (·.kind.isKnown) = true) {i : ResourceId}
    (hi : i < g.size) : g.newId i = some i := by
  have hflags : g.resources.toList.map (·.kind.isKnown) = List.replicate g.size true := by
    refine List.eq_replicate_iff.2 ⟨by simp [size], fun flag hflag => ?_⟩
    obtain ⟨r, hr, rfl⟩ := List.mem_map.1 hflag
    rw [← Array.all_toList, List.all_eq_true] at hall
    exact hall r hr
  obtain ⟨r, hr⟩ := exists_resource hi
  have hknown : r.kind.isKnown = true := by
    rw [← Array.all_toList, List.all_eq_true] at hall
    exact hall r (mem_resources_iff.2 ⟨i, hr⟩)
  refine newId_eq_some.2 ⟨r, hr, hknown, ?_⟩
  rw [hflags, List.take_replicate, List.count_replicate_self]
  exact Nat.min_eq_left (Nat.le_of_lt hi)

end ResourceGraph

/-- Renaming each id to itself changes nothing. -/
theorem Links.rename_eq_self {newId : ResourceId → Option ResourceId} {l : Links}
    (h : ∀ id ∈ l.ids, newId id = some id) : l.rename newId = l := by
  have hlist : ∀ ids : List ResourceId, (∀ id ∈ ids, id ∈ l.ids) → ids.filterMap newId = ids := by
    intro ids hids
    rw [List.filterMap_congr fun id hid => h id (hids id hid), List.filterMap_some]
  -- no set holds an id that is renamed or dropped
  have hset : ∀ s : IdSet, (∀ id ∈ s, id ∈ l.ids) → s.filterMap newId = s := by
    intro s hs
    refine IdSet.ext fun id => ?_
    rw [IdSet.mem_filterMap]
    constructor
    · rintro ⟨old, hold, hnew⟩
      rw [h old (hs old hold), Option.some.injEq] at hnew
      exact hnew ▸ hold
    · exact fun hid => ⟨id, hid, h id (hs id hid)⟩
  have horder : l.orderedMembers.map (·.filterMap newId) = l.orderedMembers := by
    cases hordered : l.orderedMembers with
    | none => rfl
    | some ids =>
      refine congrArg some (hlist _ fun id hid => ?_)
      simp [Links.ids, hordered, hid]
  unfold rename
  rw [horder, hset l.broader, hset l.narrower, hset l.members, hset l.inSchemes,
    hset l.inCollections, hset l.schemeMembers, hset l.topConcepts]
  all_goals
    intro id hid
    simp [Links.ids, IdSet.mem_def.1 hid]

namespace ResourceGraph

variable {g : ResourceGraph}

/-- A graph without unknown resources is what is left of it. -/
theorem kept_eq_self (h : Sound g) (hall : g.resources.all (·.kind.isKnown) = true) :
    g.kept = g.resources := by
  have hsame : ∀ r ∈ g.resources.toList,
      ((g.newId r.id).map fun id => g.renumbered id r) = some r := by
    intro r hr
    obtain ⟨i, hi⟩ := mem_resources_iff.1 hr
    have hid := h.indexed.id_eq i r hi
    have hlinks : r.links.rename g.newId = r.links :=
      Links.rename_eq_self fun id hid => newId_eq_self hall (h.ids_lt hi id hid)
    rw [hid, newId_eq_self hall (lt_size hi), Option.map_some, renumbered, hlinks, ← hid]
  refine Array.ext' ?_
  rw [kept, Array.toList_filterMap, List.filterMap_congr hsame, List.filterMap_some]

/-! ## The index made anew -/

/-- The index of resources with different nodes finds each of them. -/
theorem get?_indexOf {resources : List Resource} {n : Node} {i : ResourceId}
    (h : resources.Pairwise (·.node ≠ ·.node)) :
    (indexOf resources).get? n = some i ↔ ∃ r ∈ resources, r.node = n ∧ r.id = i := by
  unfold indexOf
  induction resources using List.reverseRecOn with
  | nil => simp
  | append_singleton before last ih =>
    obtain ⟨hbefore, _, hlast⟩ := List.pairwise_append.1 h
    rw [List.foldl_append, List.foldl_cons, List.foldl_nil, Table.get?_insert]
    by_cases hsame : n = last.node
    · -- the resource that is entered last is the only one of its node
      have hnone : ∀ r ∈ before, r.node ≠ n := fun r hr =>
        hsame ▸ hlast r hr last List.mem_cons_self
      rw [if_pos hsame, Option.some.injEq]
      constructor
      · exact fun hid => ⟨last, by simp, hsame.symm, hid⟩
      · rintro ⟨r, hr, hnode, hid⟩
        rcases List.mem_append.1 hr with hr | hr
        · exact absurd hnode (hnone r hr)
        · rw [← hid, List.mem_singleton.1 hr]
    · rw [if_neg hsame, ih hbefore]
      simp [Ne.symm hsame]

/-! ## Pruning -/

/-- The resources that pruning leaves, whether it has to leave any out or not. -/
theorem resources_prune (h : Sound g) : g.prune.resources = g.kept := by
  unfold prune
  by_cases hall : g.resources.all (·.kind.isKnown) = true
  · rw [if_pos hall, kept_eq_self h hall]
  · rw [if_neg hall]
    rfl

/-- What is left after pruning: the known resources in their order, each with its new id. -/
theorem toList_prune (h : Sound g) : g.prune.resources.toList =
    (g.resources.toList.filter (·.kind.isKnown)).map fun r =>
      g.renumbered ((g.newId r.id).getD 0) r := by
  rw [resources_prune h, toList_kept h.indexed]

/-- What stands at an id after pruning is the resource that has this new id. -/
theorem get_prune (h : Sound g) {j : ResourceId} {r' : Resource} :
    g.prune.resources[j]? = some r' ↔
      ∃ i r, g.resources[i]? = some r ∧ g.newId i = some j ∧ r' = g.renumbered j r := by
  rw [resources_prune h]
  exact get_kept h.indexed

/-- The nodes of the resources that are left differ like those before. -/
theorem kept_nodes_ne (h : Indexed g) : g.kept.toList.Pairwise (·.node ≠ ·.node) := by
  have hat : ∀ (k : Nat) (hk : k < g.kept.toList.length), g.kept[k]? = some g.kept.toList[k] :=
    fun k hk => by rw [← Array.getElem?_toList, List.getElem?_eq_getElem hk]
  refine List.pairwise_iff_getElem.2 fun i' j' hi' hj' hlt hsame => ?_
  obtain ⟨i, r, hr, hi, hreq⟩ := (get_kept h).1 (hat i' hi')
  obtain ⟨j, s, hs, hj, hseq⟩ := (get_kept h).1 (hat j' hj')
  rw [hreq, hseq] at hsame
  obtain rfl := h.node_inj i j r s hr hs hsame
  rw [hi, Option.some.injEq] at hj
  exact Nat.ne_of_lt hlt hj

/-- Pruning keeps index and resources in agreement: either both are as they were, or the index is
made anew from the resources that are left. -/
theorem indexed_prune (h : Sound g) : Indexed g.prune := by
  by_cases hall : g.resources.all (·.kind.isKnown) = true
  · rw [prune, if_pos hall]
    exact h.indexed
  · have hid : ∀ (j : ResourceId) r', g.prune.resources[j]? = some r' → r'.id = j := by
      intro j r' hr'
      obtain ⟨_, _, _, _, rfl⟩ := (get_prune h).1 hr'
      rfl
    have hindex : g.prune.index = indexOf g.prune.resources.toList := by
      rw [prune, if_neg hall]
    refine ⟨hid, fun n j => ?_⟩
    rw [lookup, hindex, get?_indexOf (resources_prune h ▸ kept_nodes_ne h.indexed)]
    constructor
    · rintro ⟨r', hr', hnode, hj⟩
      obtain ⟨i, hi⟩ := mem_resources_iff.1 hr'
      obtain rfl : i = j := (hid i r' hi).symm.trans hj
      exact ⟨r', hi, hnode⟩
    · rintro ⟨r', hr', hnode⟩
      exact ⟨r', mem_resources_iff.2 ⟨j, hr'⟩, hnode, hid j r' hr'⟩

end ResourceGraph

end Thesaurus
