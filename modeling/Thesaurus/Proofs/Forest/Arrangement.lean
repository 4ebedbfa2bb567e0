import Thesaurus.Forest.Ranking
import Thesaurus.Proofs.Forest.Nodes
import Thesaurus.Proofs.Forest.SiblingOrder

/-!
# Ranking as a recursion

A forest is ranked in two passes. The first goes through all lists of siblings and makes a plan; the
second goes through them again, moves the nodes on the way and takes the orders from the plan. The
lists come up in the same sequence both times, so each list gets its own order, and what comes out
is the forest in which the siblings of every node are arranged, from the leaves up.

- `Ranking.arrange`, `Ranking.ranked`: siblings, and forests, as they are to be presented.
- `Forest.SiblingList`: the lists of siblings of a forest.
- `Ranking.Unreadable`: a list of siblings with a notation that cannot be read.
- `Ranking.notationOrder_cases`, `Ranking.plan_eq_error`: a plan is made unless there is such a
  list.
- `Ranking.settle_eq_arrange`: the order of a list arranges it.
- `Ranking.rearrange_eq`: the orders of a plan arrange every list.
- `Ranking.apply_cases`: a forest is ranked, or it is left as it is.
-/

namespace Thesaurus

open Notation (Axis Fault Key Sorting compareOptional)

namespace Ranking

variable {sorting : Sorting} {axis : Axis} {siblings f : Forest} {t : Tree Entry} {e : Entry}

/-! ## Ranked forests -/

/-- The key of a node; a notation that cannot be read counts as none. -/
def keyOf (sorting : Sorting) (t : Tree Entry) : Option Key :=
  match readKey sorting t.value with
  | .ok key => key
  | .error _ => none

/-- Siblings in the order of their notations. Those that tie keep their order, and those without a
notation come last. -/
def byNotation (sorting : Sorting) (siblings : Forest) : Forest :=
  sortOn (keyOf sorting) compareOptional siblings

/-- The indices of siblings in the order of their notations. -/
def rankOrder (sorting : Sorting) (siblings : Forest) : List Nat :=
  (sortOn (fun indexed => keyOf sorting indexed.1) compareOptional siblings.zipIdx).map (·.2)

/-- A node whose siblings are in the order of their notations has no rank. -/
def inNotationOrder (e : Entry) : Entry :=
  { e with sortByNotation := true, notationRank := none }

/-- A node whose siblings are in the order of their labels has a rank, if one is given. -/
def inLabelOrder (rank : Option Nat) (e : Entry) : Entry :=
  { e with sortByNotation := false, notationRank := rank.or e.notationRank }

/-- The siblings as they are presented on the axis of `sorting`. -/
def arrange (sorting : Sorting) (siblings : Forest) : Forest :=
  match sorting.axis, isPositioned siblings with
  | .byNotation, true => siblings.map (mapRoot inNotationOrder)
  | .byNotation, false => (byNotation sorting siblings).map (mapRoot inNotationOrder)
  | .byLabel, true => siblings.map (mapRoot (inLabelOrder none))
  | .byLabel, false =>
    let order := rankOrder sorting siblings
    siblings.zipIdx.map fun (t, i) => mapRoot (inLabelOrder (order.idxOf? i)) t

mutual

/-- A node with everything below it arranged. -/
def arrangeBelow (sorting : Sorting) : Tree Entry → Tree Entry
  | .node e children => .node e (arrange sorting (arrangeBelowEach sorting children))

/-- Several nodes, each with everything below it arranged. -/
def arrangeBelowEach (sorting : Sorting) : List (Tree Entry) → List (Tree Entry)
  | [] => []
  | t :: ts => arrangeBelow sorting t :: arrangeBelowEach sorting ts

end

/-- The forest with the siblings at every depth arranged. -/
def ranked (sorting : Sorting) (f : Forest) : Forest :=
  arrange sorting (arrangeBelowEach sorting f)

theorem arrangeBelowEach_eq_map : arrangeBelowEach sorting f = f.map (arrangeBelow sorting) := by
  induction f with
  | nil => rfl
  | cons t rest ih => rw [arrangeBelowEach, ih, List.map_cons]

/-- A tree with something else below its root. -/
def mapBelow (below : Forest → Forest) (t : Tree Entry) : Tree Entry :=
  .node t.value (below t.children)

theorem arrangeBelow_eq : arrangeBelow sorting t = mapBelow (ranked sorting) t := by
  cases t
  rfl

theorem arrange_nil : arrange sorting [] = [] := by
  unfold arrange
  cases sorting.axis <;> simp [isPositioned, byNotation, sortOn]

theorem ranked_nil : ranked sorting [] = [] :=
  arrange_nil

/-- Siblings are arranged alike whatever is below them. -/
theorem arrange_mapBelow (below : Forest → Forest) (siblings : Forest) :
    arrange sorting (siblings.map (mapBelow below)) =
      (arrange sorting siblings).map (mapBelow below) := by
  have hpositioned : isPositioned (siblings.map (mapBelow below)) = isPositioned siblings := by
    rw [isPositioned, List.any_map]
    rfl
  have hsorted : byNotation sorting (siblings.map (mapBelow below)) =
      (byNotation sorting siblings).map (mapBelow below) :=
    sortOn_map fun _ _ => rfl
  have horder : rankOrder sorting (siblings.map (mapBelow below)) = rankOrder sorting siblings := by
    -- the keys are read off the roots, which stay as they are
    have hindexed : sortOn (fun i => keyOf sorting i.1) compareOptional
        (siblings.zipIdx.map (Prod.map (mapBelow below) id)) =
          (sortOn (fun i => keyOf sorting i.1) compareOptional siblings.zipIdx).map
            (Prod.map (mapBelow below) id) := sortOn_map fun _ _ => rfl
    rw [rankOrder, List.zipIdx_map, hindexed, List.map_map]
    rfl
  unfold arrange
  rw [hpositioned]
  split
  · rw [List.map_map, List.map_map]
    rfl
  · rw [hsorted, List.map_map, List.map_map]
    rfl
  · rw [List.map_map, List.map_map]
    rfl
  · rw [horder, List.zipIdx_map, List.map_map, List.map_map]
    rfl

/-- A ranked forest is arranged, with ranked forests below. -/
theorem ranked_eq : ranked sorting f = (arrange sorting f).map (mapBelow (ranked sorting)) := by
  rw [ranked, arrangeBelowEach_eq_map, ← arrange_mapBelow]
  exact congrArg (arrange sorting) (List.map_congr_left fun _ _ => arrangeBelow_eq)

end Ranking

/-! ## Lists of siblings -/

/-- The lists of siblings of a forest: its roots, and the children of each node. -/
def Forest.SiblingList (f siblings : Forest) : Prop :=
  siblings = f ∨ ∃ t ∈ f.nodes, siblings = t.children

theorem Forest.siblingList_iff {f siblings : Forest} :
    f.SiblingList siblings ↔ siblings = f ∨ ∃ t ∈ f, SiblingList t.children siblings := by
  unfold SiblingList nodes
  refine or_congr_right ?_
  induction f with
  | nil => simp [Tree.walk]
  | cons t rest ih =>
    rw [Tree.walk_cons]
    simp only [List.mem_cons, List.mem_append, or_and_right, exists_or, ih, exists_eq_left,
      or_assoc]

namespace Ranking

variable {sorting : Sorting} {axis : Axis} {siblings f : Forest} {t : Tree Entry} {e : Entry}

/-! ## Plans -/

/-- A list of siblings with a notation that cannot be read. Siblings with positions are not read. -/
def Unreadable (sorting : Sorting) (siblings : Forest) : Prop :=
  isPositioned siblings = false ∧ ∃ t ∈ siblings, ∃ text fault,
    t.value.view.notationText = some text ∧ sorting.format.parse text t.value.iri = .error fault

theorem readKey_eq_error {fault : Fault} : readKey sorting e = .error fault ↔
    ∃ text, e.view.notationText = some text ∧ sorting.format.parse text e.iri = .error fault := by
  unfold readKey
  cases e.view.notationText with
  | none => simp
  | some text => cases hparsed : sorting.format.parse text e.iri <;> simp [hparsed]

/-- The notations of siblings are read, unless one of them cannot be. -/
theorem readKeys_cases (sorting : Sorting) (siblings : Forest) :
    (readKeys sorting siblings = .ok (siblings.map (keyOf sorting)) ∧
      ∀ t ∈ siblings, ∀ fault, readKey sorting t.value ≠ .error fault) ∨
    ∃ fault, readKeys sorting siblings = .error fault ∧
      ∃ t ∈ siblings, readKey sorting t.value = .error fault := by
  induction siblings with
  | nil => exact .inl ⟨rfl, fun _ ht => absurd ht List.not_mem_nil⟩
  | cons t rest ih =>
    rw [readKeys]
    cases hread : readKey sorting t.value with
    | error fault => exact .inr ⟨fault, rfl, t, List.mem_cons_self, hread⟩
    | ok key =>
      obtain ⟨hothers, hreadable⟩ | ⟨fault, hothers, bad, hmem, hfails⟩ := ih
      · refine .inl ⟨by simp [hothers, keyOf, hread], ?_⟩
        rw [List.forall_mem_cons]
        exact ⟨fun fault => by simp [hread], hreadable⟩
      · exact .inr ⟨fault, by simp [hothers], bad, List.mem_cons_of_mem _ hmem, hfails⟩

/-- The order that siblings have if all their notations can be read. -/
def orderFor (sorting : Sorting) (siblings : Forest) : Order :=
  if isPositioned siblings then none else some (rankOrder sorting siblings)

/-- The indices of the keys are those of the nodes. -/
theorem orderOf_keys : orderOf (siblings.map (keyOf sorting)) = rankOrder sorting siblings := by
  have hindices : List.range (siblings.map (keyOf sorting)).length = siblings.zipIdx.map (·.2) := by
    rw [List.length_map, List.range_eq_range', ← List.zipIdx_map_snd]
  rw [orderOf, hindices, rankOrder]
  refine sortOn_map fun indexed hmem => ?_
  have hhere : siblings[indexed.2]? = some indexed.1 := List.mem_zipIdx_iff_getElem?.1 hmem
  rw [List.getElem?_map, hhere]
  rfl

/-- Siblings have their order, unless a notation cannot be read. -/
theorem notationOrder_cases (sorting : Sorting) (siblings : Forest) :
    (notationOrder sorting siblings = .ok (orderFor sorting siblings) ∧
      ¬ Unreadable sorting siblings) ∨
    ∃ fault, notationOrder sorting siblings = .error fault ∧ Unreadable sorting siblings := by
  unfold notationOrder orderFor
  cases hpositioned : isPositioned siblings with
  | true => exact .inl ⟨rfl, fun hunreadable => by simp [Unreadable, hpositioned] at hunreadable⟩
  | false =>
    obtain ⟨hread, hreadable⟩ | ⟨fault, hread, t, hmem, hfails⟩ := readKeys_cases sorting siblings
    · refine .inl ⟨by simp [hread, orderOf_keys], ?_⟩
      rintro ⟨_, t, hmem, text, fault, hgiven, hfails⟩
      exact hreadable t hmem fault (readKey_eq_error.2 ⟨text, hgiven, hfails⟩)
    · obtain ⟨text, hgiven, hfails⟩ := readKey_eq_error.1 hfails
      exact .inr ⟨fault, by simp [hread], hpositioned, t, hmem, text, fault, hgiven, hfails⟩

/-- The order that siblings are given is that of their keys. -/
theorem eq_orderOf {indices : List Nat} (h : notationOrder sorting siblings = .ok (some indices)) :
    indices = orderOf (siblings.map (keyOf sorting)) := by
  obtain ⟨hread, _⟩ | ⟨fault, hfailed, _⟩ := notationOrder_cases sorting siblings
  · rw [h, orderFor, Except.ok.injEq] at hread
    split at hread
    · cases hread
    · rw [orderOf_keys]
      exact Option.some.inj hread
  · rw [hfailed] at h
    cases h

/-! ## Siblings in order -/

/-- With each index once, all slots are emptied in the order of the indices. -/
theorem takeOut_eq {indices : List Nat} (hnodup : indices.Nodup)
    (slots : List (Option (Tree Entry))) :
    takeOut indices slots = indices.filterMap fun i => slots[i]?.join := by
  induction indices generalizing slots with
  | nil => rfl
  | cons i indices ih =>
    obtain ⟨hfresh, hlater⟩ := List.nodup_cons.1 hnodup
    rw [takeOut, List.filterMap_cons]
    cases hhere : slots[i]?.join with
    | none => exact ih hlater slots
    | some t =>
      have hothers : ∀ j ∈ indices, (slots.set i none)[j]?.join = slots[j]?.join := by
        intro j hj
        have hother : i ≠ j := fun hsame => hfresh (hsame ▸ hj)
        rw [List.getElem?_set_ne hother]
      exact congrArg (t :: ·) ((ih hlater _).trans (List.filterMap_congr hothers))

/-- With each index once, each sibling gets the place of its index as its rank. -/
theorem getElem?_giveRanks {indices : List Nat} (hnodup : indices.Nodup) (next : Nat)
    (siblings : Forest) (j : Nat) :
    (giveRanks indices next siblings)[j]? = siblings[j]?.map (mapRoot fun e =>
      { e with notationRank := ((indices.idxOf? j).map (next + ·)).or e.notationRank }) := by
  induction indices generalizing next siblings with
  | nil =>
    have hsame : (mapRoot fun e => { e with notationRank := e.notationRank }) = id :=
      funext Tree.node_value_children
    simp [giveRanks, hsame]
  | cons i indices ih =>
    obtain ⟨hfresh, hlater⟩ := List.nodup_cons.1 hnodup
    rw [giveRanks, ih hlater, List.getElem?_modify, List.idxOf?_cons]
    cases siblings[j]? with
    | none => rfl
    | some t =>
      by_cases hhere : i = j
      · subst hhere
        simp [List.idxOf?_eq_none_iff.2 hfresh, mapRoot]
      · simp [hhere, mapRoot, Nat.add_assoc, Nat.add_comm 1, Function.comp_def]

/-- The order of siblings has each index once. -/
theorem rankOrder_perm : (rankOrder sorting siblings).Perm (List.range siblings.length) := by
  have hperm : (rankOrder sorting siblings).Perm (siblings.zipIdx.map (·.2)) :=
    (sortOn_perm ..).map _
  rwa [List.zipIdx_map_snd, ← List.range_eq_range'] at hperm

theorem rankOrder_nodup : (rankOrder sorting siblings).Nodup :=
  rankOrder_perm.nodup_iff.2 List.nodup_range

/-- Siblings in order come with their indices in order. -/
theorem exists_indexed (sorting : Sorting) (siblings : Forest) :
    ∃ indexed : List (Tree Entry × Nat), indexed.map (·.1) = byNotation sorting siblings ∧
      indexed.map (·.2) = rankOrder sorting siblings ∧
      ∀ pair ∈ indexed, siblings[pair.2]? = some pair.1 := by
  refine ⟨sortOn (fun pair => keyOf sorting pair.1) compareOptional siblings.zipIdx, ?_, rfl,
    fun pair hmem => List.mem_zipIdx_iff_getElem?.1 ((sortOn_perm ..).mem_iff.1 hmem)⟩
  have hsorted : byNotation sorting (siblings.zipIdx.map (·.1)) =
      (sortOn (fun pair => keyOf sorting pair.1) compareOptional siblings.zipIdx).map (·.1) :=
    sortOn_map fun _ _ => rfl
  rw [List.zipIdx_map_fst] at hsorted
  exact hsorted.symm

/-- The indices in the order of the notations lead to the siblings in that order. -/
theorem filterMap_rankOrder :
    (rankOrder sorting siblings).filterMap (siblings[·]?) = byNotation sorting siblings := by
  obtain ⟨indexed, hnodes, hindices, hhere⟩ := exists_indexed sorting siblings
  rw [← hnodes, ← hindices, List.filterMap_map, ← List.filterMap_eq_map]
  exact List.filterMap_congr hhere

/-- The order of siblings arranges them. -/
theorem settle_eq_arrange :
    settle sorting.axis (orderFor sorting siblings) siblings = arrange sorting siblings := by
  unfold arrange
  split
  · next haxis hpositioned =>
    simp only [settle, orderFor, carryOut, hpositioned, haxis, if_true]
    rfl
  · next haxis hpositioned =>
    -- taking the siblings out one by one gives them in the order of their notations
    have hmoved : takeOut (rankOrder sorting siblings) (siblings.map some) =
        byNotation sorting siblings := by
      rw [takeOut_eq rankOrder_nodup, ← filterMap_rankOrder]
      refine List.filterMap_congr fun i _ => ?_
      rw [List.getElem?_map]
      cases siblings[i]? <;> rfl
    simp only [settle, orderFor, carryOut, hpositioned, haxis, Bool.false_eq_true, if_false, hmoved]
    rfl
  · next haxis hpositioned =>
    simp only [settle, orderFor, carryOut, hpositioned, haxis, if_true]
    rfl
  · next haxis hpositioned =>
    simp only [settle, orderFor, carryOut, hpositioned, haxis, Bool.false_eq_true, if_false]
    refine List.ext_getElem? fun j => ?_
    rw [List.getElem?_map, getElem?_giveRanks rankOrder_nodup, List.getElem?_map,
      List.getElem?_zipIdx]
    cases siblings[j]? with
    | none => rfl
    | some t => simp [mapRoot, mark, inLabelOrder]

/-- What is below arranged siblings comes in the order in which they are presented. -/
theorem listsBelow_arrange : listsBelow (arrange sorting siblings) =
    listsBelow (presented sorting.axis (orderFor sorting siblings) siblings) := by
  have hchildren : (arrange sorting siblings).map (·.children) =
      (presented sorting.axis (orderFor sorting siblings) siblings).map (·.children) := by
    unfold arrange
    split
    · next haxis hpositioned =>
      simp [presented, orderFor, haxis, hpositioned, mapRoot, Function.comp_def]
    · next haxis hpositioned =>
      simp [presented, orderFor, haxis, hpositioned, mapRoot, Function.comp_def,
        filterMap_rankOrder]
    · next haxis hpositioned =>
      simp [presented, orderFor, haxis, hpositioned, mapRoot, Function.comp_def]
    · next haxis hpositioned =>
      have hsame : (siblings.zipIdx.map (·.1)).map (·.children) = siblings.map (·.children) := by
        rw [List.zipIdx_map_fst]
      rw [List.map_map] at hsame
      simp only [presented, haxis]
      rw [List.map_map]
      exact hsame
  rw [listsBelow, hchildren, listsBelow]

/-! ## Making a plan -/

/-- A forest with a list of siblings that cannot be put into order. -/
def Faulty (sorting : Sorting) (f : Forest) : Prop :=
  ∃ siblings, f.SiblingList siblings ∧ Unreadable sorting siblings

theorem faulty_iff : Faulty sorting f ↔
    Unreadable sorting f ∨ ∃ t ∈ f, Faulty sorting t.children := by
  unfold Faulty
  simp only [f.siblingList_iff, or_and_right, exists_or, exists_eq_left]
  refine or_congr_right ⟨?_, ?_⟩
  · rintro ⟨siblings, ⟨t, ht, hlist⟩, hunreadable⟩
    exact ⟨t, ht, siblings, hlist, hunreadable⟩
  · rintro ⟨t, ht, siblings, hlist, hunreadable⟩
    exact ⟨siblings, ⟨t, ht, hlist⟩, hunreadable⟩

theorem not_faulty_nil : ¬ Faulty sorting [] := by
  rw [faulty_iff]
  simp [Unreadable]

/-- What is faulty below some siblings is in one of the lists that are met below them. -/
theorem exists_faulty_listsBelow (sorting : Sorting) {moved : Forest}
    (hperm : moved.Perm siblings) :
    (∃ list ∈ listsBelow moved, Faulty sorting list) ↔
      ∃ t ∈ siblings, Faulty sorting t.children := by
  constructor
  · rintro ⟨list, hmem, hfaulty⟩
    obtain ⟨t, ht, rfl⟩ := List.mem_map.1 (List.mem_filter.1 hmem).1
    exact ⟨t, hperm.mem_iff.1 ht, hfaulty⟩
  · rintro ⟨t, ht, hfaulty⟩
    refine ⟨t.children, List.mem_filter.2 ⟨List.mem_map_of_mem (hperm.mem_iff.2 ht), ?_⟩, hfaulty⟩
    cases hnone : t.children with
    | nil => exact absurd (hnone ▸ hfaulty) not_faulty_nil
    | cons _ _ => rfl

/-- Below siblings that can be put into order, the same forests are faulty in the next turn. -/
theorem exists_faulty_next {order : Order} (hordered : notationOrder sorting siblings = .ok order)
    (rest : List Forest) :
    (∃ f ∈ (listsBelow (presented sorting.axis order siblings)).reverse ++ rest,
      Faulty sorting f) ↔ ∃ f ∈ siblings :: rest, Faulty sorting f := by
  have hreadable : ¬ Unreadable sorting siblings := by
    obtain ⟨_, hreadable⟩ | ⟨fault, hfailed, _⟩ := notationOrder_cases sorting siblings
    · exact hreadable
    · cases hordered.symm.trans hfailed
  have hbelow := exists_faulty_listsBelow sorting (presented_perm hordered sorting.axis)
  simp only [List.mem_append, List.mem_reverse, or_and_right, exists_or, hbelow,
    List.mem_cons, exists_eq_left]
  rw [faulty_iff (f := siblings), or_iff_right hreadable]

/-- No plan is made just if one of the forests is faulty. -/
theorem plan_eq_error (sorting : Sorting) (pending : List Forest) :
    (∃ fault, plan sorting pending = .error fault) ↔ ∃ f ∈ pending, Faulty sorting f := by
  fun_induction plan sorting pending with
  | case1 => simp
  | case2 siblings rest fault hfailed =>
    obtain ⟨horder, _⟩ | ⟨_, _, hunreadable⟩ := notationOrder_cases sorting siblings
    · cases hfailed.symm.trans horder
    · exact ⟨fun _ => ⟨siblings, List.mem_cons_self, faulty_iff.2 (.inl hunreadable)⟩,
        fun _ => ⟨fault, rfl⟩⟩
  | case3 siblings rest order hordered fault hfailed ih =>
    rw [exists_faulty_next hordered] at ih
    exact ⟨fun _ => ih.1 ⟨fault, hfailed⟩, fun _ => ⟨fault, rfl⟩⟩
  | case4 siblings rest order hordered orders hplanned ih =>
    rw [exists_faulty_next hordered] at ih
    constructor
    · rintro ⟨fault, hfailed⟩
      cases hfailed
    · intro hfaulty
      obtain ⟨fault, hfailed⟩ := ih.2 hfaulty
      cases hplanned.symm.trans hfailed

/-! ## Following the plan -/

/-- Writing inside of what was written at a path is writing once. -/
theorem putAt_putAt (path more : List Nat) (inner outer f : Forest) :
    putAt (path ++ more) inner (putAt path outer f) = putAt path (putAt more inner outer) f := by
  induction path generalizing f with
  | nil => rfl
  | cons i path ih =>
    rw [List.cons_append, putAt, putAt, putAt, List.modify_modify_eq]
    exact congrArg (List.modify f i) (funext fun t => congrArg (Tree.node t.value) (ih t.children))

/-- Changes at different places of a list do not depend on each other. -/
theorem getElem?_foldl_modify {α : Type} (change : Nat → α → α) {indices : List Nat}
    (hnodup : indices.Nodup) (l : List α) (j : Nat) :
    (indices.foldl (fun l i => l.modify i (change i)) l)[j]? =
      if j ∈ indices then l[j]?.map (change j) else l[j]? := by
  induction indices generalizing l with
  | nil => rfl
  | cons i indices ih =>
    obtain ⟨hfresh, hlater⟩ := List.nodup_cons.1 hnodup
    rw [List.foldl_cons, ih hlater, List.getElem?_modify]
    by_cases hhere : i = j
    · subst hhere
      simp [hfresh]
    · simp [hhere, Ne.symm hhere]

/-- The forest with other siblings at a place. -/
def fill (below : Forest → Forest) (f : Forest) (place : Place) : Forest :=
  putAt place.path (below place.siblings) f

theorem foldl_fill (below : Forest → Forest) (path : List Nat) (lists : Nat → Forest)
    (indices : List Nat) (l f : Forest) :
    (indices.map fun i => Place.mk (path ++ [i]) (lists i)).foldl (fill below) (putAt path l f) =
      putAt path
        (indices.foldl (fun l i => l.modify i (mapBelow fun _ => below (lists i))) l) f := by
  induction indices generalizing l with
  | nil => rfl
  | cons i indices ih =>
    rw [List.map_cons, List.foldl_cons, List.foldl_cons, ← ih, fill, putAt_putAt]
    rfl

/-- To fill all places below some siblings is to change what is below each of them. -/
theorem foldl_placesBelow {below : Forest → Forest} (hnil : below [] = []) (path : List Nat)
    (siblings f : Forest) :
    (placesBelow path siblings).reverse.foldl (fill below) (putAt path siblings f) =
      putAt path (siblings.map (mapBelow below)) f := by
  let indices := (siblings.zipIdx.filter fun indexed => !indexed.1.children.isEmpty).map (·.2)
  let lists := fun i : Nat => siblings[i]?.elim [] (·.children)
  have hplaces : placesBelow path siblings =
      indices.map fun i => ⟨path ++ [i], lists i⟩ := by
    rw [placesBelow, List.filter_map, List.map_map]
    refine List.map_congr_left fun indexed hmem => ?_
    have hhere := List.mem_zipIdx_iff_getElem?.1 (List.mem_filter.1 hmem).1
    simp [lists, hhere]
  have hnodup : indices.reverse.Nodup := by
    have hsublist : indices.Sublist (siblings.zipIdx.map (·.2)) := List.filter_sublist.map _
    rw [List.nodup_reverse]
    refine hsublist.nodup ?_
    rw [List.zipIdx_map_snd]
    exact List.nodup_range'
  rw [hplaces, ← List.map_reverse, foldl_fill]
  congr 1
  refine List.ext_getElem? fun j => ?_
  rw [getElem?_foldl_modify (fun i => mapBelow fun _ => below (lists i)) hnodup, List.getElem?_map]
  cases hhere : siblings[j]? with
  | none => split <;> rfl
  | some t =>
    have hlist : lists j = t.children := by simp [lists, hhere]
    split
    · simp only [Option.map_some, mapBelow, hlist]
    · next hleft =>
      -- a node that is not among the places has no children
      have hleaf : t.children = [] := by
        by_contra hinner
        refine hleft (List.mem_reverse.2 (List.mem_map.2 ⟨(t, j), List.mem_filter.2 ⟨?_, ?_⟩, rfl⟩))
        · exact List.mem_zipIdx_iff_getElem?.2 hhere
        · simpa using hinner
      rw [Option.map_some, mapBelow, hleaf, hnil, ← hleaf, Tree.node_value_children]

/-- The orders of a plan arrange every list of siblings, and everything below it. -/
theorem rearrange_eq {pending : List Place} {orders : List Order}
    (hplanned : plan sorting (pending.map (·.siblings)) = .ok orders) :
    rearrange sorting.axis pending orders f = pending.foldl (fill (ranked sorting)) f := by
  fun_induction rearrange sorting.axis pending orders f with
  | case1 => rfl
  | case2 place rest orders f siblings ih =>
    rw [List.map_cons, plan] at hplanned
    split at hplanned
    · cases hplanned
    · next order hordered =>
      obtain ⟨hsame, _⟩ | ⟨_, hfailed, _⟩ := notationOrder_cases sorting place.siblings
      · obtain rfl := Except.ok.inj (hordered.symm.trans hsame)
        split at hplanned
        · cases hplanned
        · next later hothers =>
          cases hplanned
          have harranged : siblings = arrange sorting place.siblings := settle_eq_arrange
          rw [ih, List.foldl_append, harranged, foldl_placesBelow ranked_nil, ← ranked_eq]
          · rfl
          · rw [List.map_append, List.map_reverse, siblings_placesBelow, harranged,
              listsBelow_arrange]
            exact hothers
      · cases hordered.symm.trans hfailed

/-- A forest is ranked, or it is left as it is because a notation cannot be read. -/
theorem apply_cases (sorting : Sorting) (f : Forest) :
    (¬ Faulty sorting f ∧ apply sorting f = (ranked sorting f, none)) ∨
      (Faulty sorting f ∧ ∃ fault, apply sorting f = (f, some fault)) := by
  have hfails := plan_eq_error sorting [f]
  simp only [List.mem_singleton, exists_eq_left] at hfails
  unfold apply
  cases hplanned : plan sorting [f] with
  | error fault => exact .inr ⟨hfails.1 ⟨fault, hplanned⟩, fault, rfl⟩
  | ok orders =>
    refine .inl ⟨fun hfaulty => ?_, ?_⟩
    · obtain ⟨fault, hfailed⟩ := hfails.2 hfaulty
      cases hplanned.symm.trans hfailed
    · exact congrArg (·, none) (rearrange_eq hplanned)

end Ranking

end Thesaurus
