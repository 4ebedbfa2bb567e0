import Mathlib.Data.List.Induction
import Thesaurus.Proofs.Forest.Nodes
import Thesaurus.Proofs.Listing

/-!
# Visiting all nodes

A forest is visited root by root, with a stack of trees that are still to be visited. Since the
children of a node are put on in reverse, the stack, read from its end, lists them in order, and the
visits follow the recursive pre-order.

- `Tree.at?`: the node at an address.
- `Tree.ListsOnce`: whether a list has every node once, in the order of the addresses.
- `Tree.listsOnce_preorderAll`: the pre-order does.
- `Tree.visitStack_eq`: what is on a stack is visited in the pre-order of its trees, the last one
  first.
- `Forest.forEach_eq`: a forest is visited in pre-order.
- `Forest.countUp`: counting by key, one item after the other.
- `walk_exact`: the visits, and what is counted and found in them.
-/

namespace Thesaurus

namespace Tree

variable {α σ : Type} {t : Tree α} {ts : List (Tree α)} {a : List Nat}

/-! ## Addresses -/

/-- The node that is reached from the root of a tree by the indices of children. -/
def below? (t : Tree α) : (address : List Nat) → Option (Tree α)
  | [] => some t
  | i :: rest => t.children[i]?.bind fun c => c.below? rest

/-- The node at an address: the index of one of the trees, and then those of children. -/
def at? (ts : List (Tree α)) : (address : List Nat) → Option (Tree α)
  | [] => none
  | i :: rest => ts[i]?.bind fun t => t.below? rest

/-- Whether a list has every node of some trees just once, in the order of the addresses. Nodes are
told apart by their addresses, since the same tree can stand in several places. -/
def ListsOnce (ts nodes : List (Tree α)) : Prop :=
  ∃ located : List (List Nat × Tree α), located.map (·.2) = nodes ∧
    (∀ a t, (a, t) ∈ located ↔ at? ts a = some t) ∧
    located.Pairwise fun first later => first.1 < later.1

mutual

/-- The nodes of a tree in pre-order, each with its address. -/
def located : Tree α → List (List Nat × Tree α)
  | node v cs => ([], node v cs) :: locatedAll 0 cs

/-- The nodes of a list of trees in pre-order, each with its address, where the first tree has the
given index. -/
def locatedAll (first : Nat) : List (Tree α) → List (List Nat × Tree α)
  | [] => []
  | t :: ts => t.located.map (fun (a, s) => (first :: a, s)) ++ locatedAll (first + 1) ts

end

mutual

theorem map_located : ∀ t : Tree α, t.located.map (·.2) = t.preorder
  | node v cs => by rw [located, preorder, List.map_cons, map_locatedAll 0 cs]

theorem map_locatedAll (first : Nat) : ∀ ts : List (Tree α),
    (locatedAll first ts).map (·.2) = preorderAll ts
  | [] => rfl
  | t :: ts => by
    rw [locatedAll, preorderAll, List.map_append, List.map_map, ← map_located t,
      map_locatedAll (first + 1) ts]
    rfl

end

/-- An address among trees is the index of one of them and an address in it. -/
theorem mem_locatedAll {first : Nat} : (a, t) ∈ locatedAll first ts ↔
    ∃ i s rest, ts[i]? = some s ∧ a = (first + i) :: rest ∧ (rest, t) ∈ s.located := by
  induction ts generalizing first with
  | nil => simp [locatedAll]
  | cons s ts ih =>
    rw [locatedAll, List.mem_append, ih]
    constructor
    · rintro (hhere | ⟨i, s', rest, hfound, rfl, hmem⟩)
      · obtain ⟨⟨rest, t'⟩, hmem, hsame⟩ := List.mem_map.1 hhere
        obtain ⟨rfl, rfl⟩ := Prod.mk.inj hsame
        exact ⟨0, s, rest, rfl, rfl, hmem⟩
      · have hmoved : first + 1 + i = first + (i + 1) := by omega
        exact ⟨i + 1, s', rest, hfound, by rw [hmoved], hmem⟩
    · rintro ⟨i, s', rest, hfound, rfl, hmem⟩
      cases i with
      | zero =>
        obtain rfl : s = s' := Option.some.inj hfound
        exact .inl (List.mem_map.2 ⟨(rest, t), hmem, rfl⟩)
      | succ i =>
        have hmoved : first + (i + 1) = first + 1 + i := by omega
        exact .inr ⟨i, s', rest, hfound, by rw [hmoved], hmem⟩

/-- Just the addresses in a tree are listed. -/
theorem mem_located {s : Tree α} : (a, s) ∈ t.located ↔ t.below? a = some s := by
  induction t using Tree.induct generalizing a s with
  | node v cs ih =>
    rw [located, List.mem_cons, mem_locatedAll]
    cases a with
    | nil => simp [below?, eq_comm]
    | cons i rest =>
      rw [below?, Option.bind_eq_some_iff, children_node]
      constructor
      · rintro (hhere | ⟨j, c, rest', hfound, hsame, hmem⟩)
        · cases hhere
        · obtain ⟨rfl, rfl⟩ := List.cons.inj hsame
          rw [Nat.zero_add]
          exact ⟨c, hfound, (ih c (List.mem_of_getElem? hfound)).1 hmem⟩
      · rintro ⟨c, hfound, hreached⟩
        refine .inr ⟨i, c, rest, hfound, by rw [Nat.zero_add], ?_⟩
        exact (ih c (List.mem_of_getElem? hfound)).2 hreached

theorem ascending_locatedAll {first : Nat}
    (h : ∀ t ∈ ts, t.located.Pairwise fun earlier later => earlier.1 < later.1) :
    (locatedAll first ts).Pairwise fun earlier later => earlier.1 < later.1 := by
  induction ts generalizing first with
  | nil => exact .nil
  | cons t ts ih =>
    rw [locatedAll, List.pairwise_append]
    refine ⟨?_, ih fun s hs => h s (List.mem_cons_of_mem _ hs), ?_⟩
    · rw [List.pairwise_map]
      exact (h t List.mem_cons_self).imp fun hless => List.cons_lt_cons_iff.2 (.inr ⟨rfl, hless⟩)
    · -- what is in later trees has a greater first index
      rintro ⟨a, s⟩ hhere ⟨b, s'⟩ hlater
      obtain ⟨⟨rest, s⟩, _, hsame⟩ := List.mem_map.1 hhere
      obtain ⟨rfl, rfl⟩ := Prod.mk.inj hsame
      obtain ⟨i, _, rest', _, rfl, _⟩ := mem_locatedAll.1 hlater
      exact List.cons_lt_cons_iff.2 (.inl (by omega))

theorem ascending_located (t : Tree α) :
    t.located.Pairwise fun earlier later => earlier.1 < later.1 := by
  induction t using Tree.induct with
  | node v cs ih =>
    rw [located, List.pairwise_cons]
    refine ⟨?_, ascending_locatedAll ih⟩
    rintro ⟨a, s⟩ hmem
    obtain ⟨i, _, rest, _, rfl, _⟩ := mem_locatedAll.1 hmem
    exact List.nil_lt_cons _ _

/-- The pre-order has every node just once, in the order of the addresses. -/
theorem listsOnce_preorderAll (ts : List (Tree α)) : ListsOnce ts (preorderAll ts) := by
  refine ⟨locatedAll 0 ts, map_locatedAll 0 ts, fun a t => ?_,
    ascending_locatedAll fun t _ => ascending_located t⟩
  rw [mem_locatedAll]
  cases a with
  | nil => simp [at?]
  | cons i rest => simp [at?, Option.bind_eq_some_iff, mem_located, and_left_comm]

/-! ## The stack -/

theorem preorderAll_append (ss ts : List (Tree α)) :
    preorderAll (ss ++ ts) = preorderAll ss ++ preorderAll ts := by
  induction ss with
  | nil => rfl
  | cons s ss ih => rw [List.cons_append, preorderAll, preorderAll, ih, List.append_assoc]

theorem preorderAll_cons (t : Tree α) (ts : List (Tree α)) :
    preorderAll (t :: ts) = t :: (preorderAll t.children ++ preorderAll ts) := by
  cases t
  rfl

/-- The listing with a list of pending trees is the pre-order. -/
theorem walk_eq_preorderAll (ts : List (Tree α)) : walk ts = preorderAll ts := by
  fun_induction walk ts with
  | case1 => rfl
  | case2 v cs rest ih => rw [ih, preorderAll_append, preorderAll_cons, children_node]

/-- What is still to be visited is the pre-order of the stack, read from its end. -/
theorem visitStack_eq (visitor : σ → Tree α → σ) (state : σ) (stack : Array (Tree α)) :
    visitStack visitor state stack =
      (preorderAll stack.toList.reverse).foldl visitor state := by
  fun_induction visitStack visitor state stack with
  | case1 state stack hempty =>
    rw [Array.back?_eq_none_iff] at hempty
    rw [hempty]
    rfl
  | case2 state stack t htop ih =>
    obtain ⟨below, rfl⟩ := Array.back?_eq_some_iff.1 htop
    have hpushed : (below ++ t.children.reverse).toList.reverse =
        t.children ++ below.toList.reverse := by simp
    have htaken : (below.push t).toList.reverse = t :: below.toList.reverse := by simp
    rw [ih, Array.pop_push, hpushed, htaken, preorderAll_append, preorderAll_cons, List.foldl_cons]

theorem visit_eq (visitor : σ → Tree α → σ) (state : σ) (t : Tree α) :
    visit visitor state t = t.preorder.foldl visitor state := by
  rw [visit, visitStack_eq]
  simp [preorderAll]

end Tree

namespace Forest

variable {α κ σ : Type} {f : Forest} {iri : String}

/-- A forest is visited in pre-order. -/
theorem forEach_eq (visitor : σ → Tree Entry → σ) (state : σ) (f : Forest) :
    f.forEach visitor state = (Tree.preorderAll f).foldl visitor state := by
  unfold forEach
  induction f generalizing state with
  | nil => rfl
  | cons t rest ih =>
    rw [List.foldl_cons, Tree.visit_eq, ih, Tree.preorderAll, List.foldl_append]

theorem nodes_eq (f : Forest) : f.nodes = Tree.preorderAll f :=
  Tree.walk_eq_preorderAll f

/-! ## Counting and finding -/

theorem foldl_count (test : α → Bool) (items : List α) (n : Nat) :
    items.foldl (fun n item => n + (test item).toNat) n = n + items.countP test := by
  induction items generalizing n with
  | nil => rfl
  | cons item rest ih =>
    rw [List.foldl_cons, ih, List.countP_cons]
    cases test item <;> simp [Nat.add_comm, Nat.add_left_comm]

/-- What is kept is the first item that passes, unless something was kept before. -/
theorem foldl_first (test : α → Bool) (items : List α) (kept : Option α) :
    items.foldl (fun kept item => if kept.isNone && test item then some item else kept) kept =
      kept.or (items.find? test) := by
  induction items generalizing kept with
  | nil => simp
  | cons item rest ih =>
    rw [List.foldl_cons, ih]
    cases kept <;> cases hpasses : test item <;> simp [hpasses]

/-- Counts an item; one that is new is added at the end. -/
def countUp [DecidableEq κ] (item : κ) : (counts : List (κ × Nat)) → List (κ × Nat)
  | [] => [(item, 1)]
  | (other, n) :: rest =>
    if other = item then (other, n + 1) :: rest else (other, n) :: countUp item rest

section CountUp

variable [DecidableEq κ]

theorem sum_countUp (item : κ) (counts : List (κ × Nat)) :
    ((countUp item counts).map (·.2)).sum = (counts.map (·.2)).sum + 1 := by
  induction counts with
  | nil => rfl
  | cons first rest ih =>
    obtain ⟨other, n⟩ := first
    by_cases hsame : other = item
    · rw [countUp, if_pos hsame, List.map_cons, List.sum_cons, List.map_cons, List.sum_cons]
      omega
    · rw [countUp, if_neg hsame, List.map_cons, List.sum_cons, List.map_cons, List.sum_cons, ih]
      omega

/-- Every item counts once. -/
theorem sum_foldl_countUp (items : List κ) (counts : List (κ × Nat)) :
    ((items.foldl (fun counts item => countUp item counts) counts).map (·.2)).sum =
      (counts.map (·.2)).sum + items.length := by
  induction items generalizing counts with
  | nil => rfl
  | cons item rest ih =>
    rw [List.foldl_cons, ih, sum_countUp, List.length_cons]
    omega

theorem countUp_of_not_mem {item : κ} {counts : List (κ × Nat)}
    (h : ∀ entry ∈ counts, entry.1 ≠ item) : countUp item counts = counts ++ [(item, 1)] := by
  induction counts with
  | nil => rfl
  | cons first rest ih =>
    rw [countUp, if_neg (h first List.mem_cons_self),
      ih fun entry hentry => h entry (List.mem_cons_of_mem _ hentry), List.cons_append]

theorem countUp_of_mem {item : κ} {keys : List κ} (count : κ → Nat) (hdistinct : keys.Nodup)
    (hmem : item ∈ keys) : countUp item (keys.map fun k => (k, count k)) =
      keys.map fun k => (k, count k + if k = item then 1 else 0) := by
  induction keys with
  | nil => cases hmem
  | cons first rest ih =>
    obtain ⟨hapart, hdistinct⟩ := List.nodup_cons.1 hdistinct
    rw [List.map_cons, List.map_cons, countUp]
    by_cases hsame : first = item
    · -- the item does not come again
      have hothers : ∀ k ∈ rest, k ≠ item := fun k hk hkey => hapart (hsame ▸ hkey ▸ hk)
      rw [if_pos hsame, if_pos hsame]
      refine congrArg _ (List.map_congr_left fun k hk => ?_)
      rw [if_neg (hothers k hk)]
      rfl
    · have hlater : item ∈ rest := (List.mem_cons.1 hmem).resolve_left (Ne.symm hsame)
      rw [if_neg hsame, if_neg hsame, ih hdistinct hlater]
      rfl

/-- Counting one item after the other gives the number of times that each item comes. -/
theorem foldl_countUp (items : List κ) :
    items.foldl (fun counts item => countUp item counts) [] =
      items.eraseDups.map fun k => (k, items.count k) := by
  -- by induction from the end, as the fold takes the items
  induction items using List.reverseRecOn with
  | nil => rfl
  | append_singleton items item ih =>
    have hcounted : ∀ k, (items ++ [item]).count k = items.count k + if k = item then 1 else 0 := by
      intro k
      rw [List.count_append]
      by_cases hsame : k = item
      · rw [if_pos hsame, hsame, List.count_singleton_self]
      · have hother : k ∉ [item] := by simpa using hsame
        rw [if_neg hsame, List.count_eq_zero_of_not_mem hother]
    rw [List.foldl_append, ih, List.foldl_cons, List.foldl_nil, List.eraseDups_append]
    by_cases hmem : item ∈ items
    · have hagain : [item].removeAll items = [] := by simp [List.removeAll, hmem]
      rw [hagain, countUp_of_mem _ (nodup_eraseDups items) (List.mem_eraseDups.2 hmem)]
      simp only [hcounted, List.eraseDups_nil, List.append_nil]
    · have hnew : [item].removeAll items = [item] := by simp [List.removeAll, hmem]
      have hapart : ∀ k ∈ items.eraseDups, k ≠ item := by
        rintro k hk rfl
        exact hmem (List.mem_eraseDups.1 hk)
      have hothers : (items.eraseDups.map fun k => (k, (items ++ [item]).count k)) =
          items.eraseDups.map fun k => (k, items.count k) :=
        List.map_congr_left fun k hk => by rw [hcounted, if_neg (hapart k hk), Nat.add_zero]
      rw [hnew, countUp_of_not_mem (by simpa using hapart), List.map_append, hothers]
      simp [List.eraseDups_cons, hcounted, List.count_eq_zero_of_not_mem hmem]

end CountUp

/-- Whether a node is owned and shows the given IRI. -/
def owns (iri : String) (t : Tree Entry) : Bool :=
  !t.value.reference && t.value.iri == iri

theorem nodeCount_eq_forEach (f : Forest) : f.nodeCount = f.forEach (fun n _ => n + 1) 0 := by
  have hcounted : (Tree.preorderAll f).foldl (fun n _ => n + 1) 0 =
      0 + (Tree.preorderAll f).countP fun _ => true := foldl_count (fun _ => true) _ 0
  rw [forEach_eq, hcounted, List.countP_true, Nat.zero_add, nodeCount, nodes_eq]

theorem referenceCount_eq_forEach (f : Forest) :
    f.referenceCount = f.forEach (fun n t => n + t.value.reference.toNat) 0 := by
  rw [forEach_eq, foldl_count fun t : Tree Entry => t.value.reference, Nat.zero_add,
    referenceCount, nodes_eq]

theorem ownedOccurrences_eq_forEach (f : Forest) : f.ownedOccurrences =
    f.forEach (fun counts t =>
      if t.value.reference then counts else countUp t.value.iri counts) [] := by
  have howned : ∀ (counts : List (String × Nat)) (t : Tree Entry),
      (if t.value.reference then counts else countUp t.value.iri counts) =
        if !t.value.reference then countUp t.value.iri counts else counts := by
    intro counts t
    cases t.value.reference <;> rfl
  rw [forEach_eq, ← nodes_eq]
  simp only [howned]
  rw [← List.foldl_filter]
  exact (foldl_countUp f.ownedIris).symm.trans List.foldl_map

theorem find?_eq_forEach (f : Forest) (iri : String) : f.find? iri =
    f.forEach (fun found t => if found.isNone && owns iri t then some t else found) none := by
  rw [forEach_eq, foldl_first, Option.none_or, ← nodes_eq]
  rfl

/-- A node is a reference, or it counts for the IRI that it shows. -/
theorem nodeCount_eq_add (f : Forest) :
    f.nodeCount = f.referenceCount + (f.ownedOccurrences.map (·.2)).sum := by
  have howned : (f.ownedOccurrences.map (·.2)).sum = f.ownedIris.length := by
    have hcounted := sum_foldl_countUp f.ownedIris []
    rw [foldl_countUp, List.map_nil, List.sum_nil, Nat.zero_add] at hcounted
    exact hcounted
  rw [howned, ownedIris, List.length_map, ← List.countP_eq_length_filter, nodeCount,
    referenceCount, List.length_eq_countP_add_countP (·.value.reference)]
  simp only [Bool.not_eq_true, Bool.decide_eq_false]

/-- An IRI has an entry if it is shown by an owned node. -/
theorem exists_mem_ownedOccurrences :
    (∃ n, (iri, n) ∈ f.ownedOccurrences) ↔ ∃ t ∈ f.nodes, owns iri t = true := by
  have hlisted : (∃ n, (iri, n) ∈ f.ownedOccurrences) ↔ iri ∈ f.ownedIris := by
    simp [ownedOccurrences]
  rw [hlisted, ownedIris, List.mem_map]
  simp [owns, and_assoc]

end Forest

/-- Every forest is visited in the recursive pre-order, which has every node just once. So what is
counted and found is what such visits count and find: each node is a reference or counts for the IRI
that it owns, and the first node that owns an IRI is found, unless no entry counts such nodes. -/
theorem walk_exact (f : Forest) :
    Tree.ListsOnce f (Tree.preorderAll f) ∧
    (∀ (σ : Type) (visitor : σ → Tree Entry → σ) (state : σ),
      f.forEach visitor state = (Tree.preorderAll f).foldl visitor state) ∧
    (f.nodeCount = f.forEach (fun n _ => n + 1) 0 ∧
      f.referenceCount = f.forEach (fun n t => n + t.value.reference.toNat) 0 ∧
      f.ownedOccurrences = f.forEach (fun counts t =>
        if t.value.reference then counts else Forest.countUp t.value.iri counts) [] ∧
      f.nodeCount = f.referenceCount + (f.ownedOccurrences.map (·.2)).sum) ∧
    ∀ iri, f.find? iri = f.forEach (fun found t =>
        if found.isNone && Forest.owns iri t then some t else found) none ∧
      f.find? iri = (Tree.preorderAll f).find? (Forest.owns iri) ∧
      (f.find? iri = none ↔ ∀ n, (iri, n) ∉ f.ownedOccurrences) := by
  refine ⟨Tree.listsOnce_preorderAll f, fun σ visitor state => Forest.forEach_eq visitor state f,
    ⟨f.nodeCount_eq_forEach, f.referenceCount_eq_forEach, f.ownedOccurrences_eq_forEach,
      f.nodeCount_eq_add⟩, fun iri => ⟨f.find?_eq_forEach iri, ?_, ?_⟩⟩
  · rw [← Forest.nodes_eq]
    rfl
  · have hfound : f.find? iri = none ↔ ∀ t ∈ f.nodes, Forest.owns iri t ≠ true :=
      List.find?_eq_none
    rw [hfound, ← not_exists, Forest.exists_mem_ownedOccurrences]
    simp

end Thesaurus
