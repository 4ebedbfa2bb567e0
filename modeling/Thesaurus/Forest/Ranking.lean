import Thesaurus.Forest.Basic
import Thesaurus.Notation.Key

/-!
# Ranking by notation (design §4.5)

Siblings can be ranked by their notations, or put into the order of their notations. Siblings with
declared positions are left alone. All notations of a forest are read before any node is touched, so
that a notation that cannot be read leaves the forest as it is.

- `Ranking.notationOrder`: the order of one list of siblings, if it can be had.
- `Ranking.plan`: the orders of all lists of siblings, in the order in which the lists are met.
- `Ranking.settle`: one list of siblings, ranked or put into a given order.
- `Ranking.rearrange`: all lists of siblings, settled by the orders of a plan.
- `Ranking.apply`: the forest ranked or in order, unless a notation cannot be read.
-/

namespace Thesaurus

open Notation (Axis Fault Key Sorting compareOptional)

namespace Ranking

/-! ## The order of siblings -/

/-- Whether some sibling has a declared position. -/
def isPositioned (siblings : Forest) : Bool :=
  siblings.any (·.value.position.isSome)

/-- Reads the notation of a node; a node without one has no key. -/
def readKey (sorting : Sorting) (e : Entry) : Except Fault (Option Key) :=
  match e.view.notationText with
  | none => .ok none
  | some text =>
    match sorting.format.parse text e.iri with
    | .ok key => .ok (some key)
    | .error fault => .error fault

/-- Reads the notations of siblings, up to the first that cannot be read. -/
def readKeys (sorting : Sorting) : Forest → Except Fault (List (Option Key))
  | [] => .ok []
  | t :: rest =>
    match readKey sorting t.value with
    | .error fault => .error fault
    | .ok key =>
      match readKeys sorting rest with
      | .error fault => .error fault
      | .ok keys => .ok (key :: keys)

/-- The indices of keys in the order of the keys. Equal keys keep their order, and missing ones come
last. -/
def orderOf (keys : List (Option Key)) : List Nat :=
  sortOn (fun i => keys[i]?.join) compareOptional (List.range keys.length)

/-- The order of one list of siblings, as indices; none if the siblings have positions. -/
abbrev Order := Option (List Nat)

/-- The order of siblings by their notations. Siblings with positions are not read. -/
def notationOrder (sorting : Sorting) (siblings : Forest) : Except Fault Order :=
  if isPositioned siblings then .ok none
  else
    match readKeys sorting siblings with
    | .error fault => .error fault
    | .ok keys => .ok (some (orderOf keys))

/-! ## The orders of a forest -/

/-- Siblings in the order in which they will be presented. -/
def presented (axis : Axis) (order : Order) (siblings : Forest) : Forest :=
  match axis, order with
  | .byNotation, some indices => indices.filterMap (siblings[·]?)
  | _, _ => siblings

/-- The lists of siblings right below the given ones. Nodes without children have none. -/
def listsBelow (siblings : Forest) : List Forest :=
  (siblings.map (·.children)).filter (!·.isEmpty)

/-- The number of nodes and lists in pending lists of siblings. -/
def workload : (pending : List Forest) → Nat
  | [] => 0
  | siblings :: rest => Tree.sizeAll siblings + 1 + workload rest

theorem workload_append (first more : List Forest) :
    workload (first ++ more) = workload first + workload more := by
  induction first with
  | nil => simp [workload]
  | cons siblings rest ih => simp only [List.cons_append, workload, ih, Nat.add_assoc]

theorem workload_perm {first more : List Forest} (h : first.Perm more) :
    workload first = workload more := by
  induction h with
  | nil => rfl
  | cons _ _ ih => simp only [workload, ih]
  | swap a b rest => simp only [workload]; omega
  | trans _ _ ih ih' => exact ih.trans ih'

theorem workload_children (siblings : Forest) :
    workload (siblings.map (·.children)) = Tree.sizeAll siblings := by
  induction siblings with
  | nil => rfl
  | cons t ts ih =>
    cases t with
    | node e cs =>
      simp only [List.map_cons, workload, ih, Tree.children_node, Tree.sizeAll, Tree.size]

/-- What is below siblings is less work than the siblings. -/
theorem workload_listsBelow (siblings : Forest) :
    workload (listsBelow siblings) ≤ Tree.sizeAll siblings := by
  rw [← workload_children, listsBelow]
  induction siblings.map (·.children) with
  | nil => exact Nat.le_refl _
  | cons list rest ih =>
    rw [List.filter_cons]
    split <;> simp only [workload] <;> omega

/-- To look up all indices of a list in order is to go through the list. -/
theorem filterMap_range {α : Type} (l : List α) :
    (List.range l.length).filterMap (l[·]?) = l := by
  induction l with
  | nil => rfl
  | cons a rest ih =>
    have hlater : (fun i => (a :: rest)[i]?) ∘ Nat.succ = (rest[·]?) := rfl
    rw [List.length_cons, List.range_succ_eq_map, List.filterMap_cons, List.filterMap_map, hlater,
      ih]
    rfl

/-- The order of siblings has each index once. -/
theorem notationOrder_perm {sorting : Sorting} {siblings : Forest} {indices : List Nat}
    (h : notationOrder sorting siblings = .ok (some indices)) :
    indices.Perm (List.range siblings.length) := by
  have hlength : ∀ {siblings keys}, readKeys sorting siblings = .ok keys →
      keys.length = siblings.length := by
    intro siblings
    induction siblings with
    | nil =>
      intro keys hread
      cases hread
      rfl
    | cons t rest ih =>
      intro keys hread
      rw [readKeys] at hread
      split at hread
      · cases hread
      · split at hread
        · cases hread
        · next hothers =>
          cases hread
          rw [List.length_cons, List.length_cons, ih hothers]
  unfold notationOrder at h
  split at h
  · cases h
  · split at h
    · cases h
    · next hread =>
      cases h
      rw [← hlength hread]
      exact List.mergeSort_perm ..

theorem presented_perm {sorting : Sorting} {siblings : Forest} {order : Order}
    (h : notationOrder sorting siblings = .ok order) (axis : Axis) :
    (presented axis order siblings).Perm siblings := by
  unfold presented
  split
  · next indices =>
    have hperm := (notationOrder_perm h).filterMap (siblings[·]?)
    rwa [filterMap_range] at hperm
  · exact List.Perm.refl _

/-- The orders of pending lists of siblings and of all lists below them, each list before those
below it, and these before the rest. The first notation that cannot be read is a fault. -/
def plan (sorting : Sorting) : (pending : List Forest) → Except Fault (List Order)
  | [] => .ok []
  | siblings :: rest =>
    match _h : notationOrder sorting siblings with
    | .error fault => .error fault
    | .ok order =>
      match plan sorting ((listsBelow (presented sorting.axis order siblings)).reverse ++ rest) with
      | .error fault => .error fault
      | .ok orders => .ok (order :: orders)
termination_by pending => workload pending
decreasing_by
  have hbelow := workload_listsBelow (presented sorting.axis order siblings)
  have hsame : Tree.sizeAll (presented sorting.axis order siblings) = Tree.sizeAll siblings := by
    rw [← workload_children, ← workload_children]
    exact workload_perm ((presented_perm _h _).map _)
  rw [workload_append, workload_perm (List.reverse_perm _)]
  simp only [workload]
  omega

/-! ## Siblings in order -/

/-- A tree whose root shows something else. -/
def mapRoot (change : Entry → Entry) (t : Tree Entry) : Tree Entry :=
  .node (change t.value) t.children

/-- Takes the trees out of their slots in a given order. A slot that is empty gives nothing. -/
def takeOut : (indices : List Nat) → (slots : List (Option (Tree Entry))) → Forest
  | [], _ => []
  | i :: indices, slots =>
    match slots[i]?.join with
    | some t => t :: takeOut indices (slots.set i none)
    | none => takeOut indices slots

/-- Gives the siblings with the given indices their ranks, the first the rank `next`. -/
def giveRanks : (indices : List Nat) → (next : Nat) → Forest → Forest
  | [], _, siblings => siblings
  | i :: indices, next, siblings =>
    giveRanks indices (next + 1)
      (siblings.modify i (mapRoot fun e => { e with notationRank := some next }))

/-- Siblings moved or ranked by their order, if there is one. -/
def carryOut (axis : Axis) (order : Order) (siblings : Forest) : Forest :=
  match order, axis with
  | none, _ => siblings
  | some indices, .byNotation => takeOut indices (siblings.map some)
  | some indices, .byLabel => giveRanks indices 0 siblings

/-- What a node shows when its siblings are in the order of an axis. In the order of notations there
are no ranks. -/
def mark (axis : Axis) (e : Entry) : Entry :=
  match axis with
  | .byNotation => { e with sortByNotation := true, notationRank := none }
  | .byLabel => { e with sortByNotation := false }

/-- Siblings as they are presented. -/
def settle (axis : Axis) (order : Order) (siblings : Forest) : Forest :=
  (carryOut axis order siblings).map (mapRoot (mark axis))

/-! ## A forest in order -/

/-- A list of siblings in a forest, with the indices that lead to it from the roots down. -/
structure Place where
  path : List Nat
  siblings : Forest

/-- The places right below some siblings at the end of `path`. -/
def placesBelow (path : List Nat) (siblings : Forest) : List Place :=
  (siblings.zipIdx.map fun (t, i) => ⟨path ++ [i], t.children⟩).filter (!·.siblings.isEmpty)

/-- The forest with other siblings at the end of a path. -/
def putAt : (path : List Nat) → (siblings : Forest) → Forest → Forest
  | [], siblings, _ => siblings
  | i :: path, siblings, f =>
    f.modify i fun t => .node t.value (putAt path siblings t.children)

theorem siblings_placesBelow (path : List Nat) (siblings : Forest) :
    (placesBelow path siblings).map (·.siblings) = listsBelow siblings := by
  have hlists : siblings.zipIdx.map ((·.children) ∘ Prod.fst) = siblings.map (·.children) := by
    rw [← List.map_map, List.zipIdx_map_fst]
  rw [listsBelow, ← hlists, placesBelow, List.filter_map, List.filter_map, List.map_map]
  rfl

theorem children_giveRanks (indices : List Nat) (next : Nat) (siblings : Forest) :
    (giveRanks indices next siblings).map (·.children) = siblings.map (·.children) := by
  induction indices generalizing next siblings with
  | nil => rfl
  | cons i indices ih =>
    rw [giveRanks, ih]
    refine List.ext_getElem? fun j => ?_
    rw [List.getElem?_map, List.getElem?_map, List.getElem?_modify]
    cases siblings[j]? with
    | none => rfl
    | some t => by_cases hhere : i = j <;> simp [hhere, mapRoot]

/-- A tree that is taken out of its slot is there no longer. -/
theorem sizeAll_set_none {slots : List (Option (Tree Entry))} {i : Nat} {t : Tree Entry}
    (h : slots[i]?.join = some t) :
    t.size + Tree.sizeAll ((slots.set i none).filterMap id) =
      Tree.sizeAll (slots.filterMap id) := by
  induction slots generalizing i with
  | nil => cases h
  | cons slot rest ih =>
    cases i with
    | zero =>
      obtain rfl : slot = some t := h
      rfl
    | succ i =>
      have hlater := ih (i := i) h
      cases slot with
      | none => exact hlater
      | some s =>
        show t.size + (s.size + Tree.sizeAll ((rest.set i none).filterMap id)) =
          s.size + Tree.sizeAll (rest.filterMap id)
        omega

/-- No tree is taken out twice. -/
theorem sizeAll_takeOut (indices : List Nat) (slots : List (Option (Tree Entry))) :
    Tree.sizeAll (takeOut indices slots) ≤ Tree.sizeAll (slots.filterMap id) := by
  induction indices generalizing slots with
  | nil => exact Nat.zero_le _
  | cons i indices ih =>
    rw [takeOut]
    split
    · next htaken =>
      have hrest := ih (slots.set i none)
      have hslot := sizeAll_set_none htaken
      simp only [Tree.sizeAll]
      omega
    · exact ih slots

/-- Settling siblings leaves no more work below them. -/
theorem sizeAll_settle (axis : Axis) (order : Order) (siblings : Forest) :
    Tree.sizeAll (settle axis order siblings) ≤ Tree.sizeAll siblings := by
  have hmarked : Tree.sizeAll (settle axis order siblings) =
      Tree.sizeAll (carryOut axis order siblings) := by
    rw [settle, ← workload_children, ← workload_children, List.map_map]
    rfl
  rw [hmarked]
  unfold carryOut
  split
  · exact Nat.le_refl _
  · have hall : (siblings.map some).filterMap id = siblings := by simp
    exact Nat.le_trans (sizeAll_takeOut ..) (Nat.le_of_eq (congrArg Tree.sizeAll hall))
  · refine Nat.le_of_eq ?_
    rw [← workload_children, children_giveRanks, workload_children]

/-- The forest in which the siblings at the pending places, and all below them, are settled. The
next order is for the first place; a place for which there is no order left is only marked. -/
def rearrange (axis : Axis) : (pending : List Place) → (orders : List Order) → Forest → Forest
  | [], _, f => f
  | place :: rest, orders, f =>
    let siblings := settle axis orders.head?.join place.siblings
    rearrange axis ((placesBelow place.path siblings).reverse ++ rest) orders.tail
      (putAt place.path siblings f)
termination_by pending => workload (pending.map (·.siblings))
decreasing_by
  have hbelow := workload_listsBelow (settle axis orders.head?.join place.siblings)
  have hsettled := sizeAll_settle axis orders.head?.join place.siblings
  rw [List.map_append, List.map_reverse, siblings_placesBelow, workload_append,
    workload_perm (List.reverse_perm _), List.map_cons]
  simp only [workload]
  omega

/-- The forest ranked or put into order at every depth. If a notation cannot be read, the forest
stays as it is, and the fault is given. -/
def apply (sorting : Sorting) (f : Forest) : Forest × Option Fault :=
  match plan sorting [f] with
  | .error fault => (f, some fault)
  | .ok orders => (rearrange sorting.axis [⟨[], f⟩] orders f, none)

end Ranking

end Thesaurus
