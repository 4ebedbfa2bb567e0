/-!
# Trees

Finite trees whose nodes have an ordered list of children, and lists of such trees.

- `Tree`: the type, with `value` and `children`.
- `Tree.induct`: induction over a tree through its children.
- `Tree.preorder`: the subtrees of a tree, parents first.
- `Tree.walk`: the same listing for a list of trees, made with an explicit list of pending trees.
- `Tree.visit`: goes through a tree with a stack, and changes a state at every node.
- `Tree.outline`: the values of a list of trees, each with its depth.
-/

namespace Thesaurus

/-- A tree with a value and a list of children at each node. -/
inductive Tree (α : Type) where
  | node (value : α) (children : List (Tree α))
deriving Inhabited

namespace Tree

variable {α : Type}

/-- The value at the root. -/
def value : Tree α → α
  | node v _ => v

/-- The trees below the root, in order. -/
def children : Tree α → List (Tree α)
  | node _ cs => cs

@[simp] theorem value_node (v : α) (cs : List (Tree α)) : (node v cs).value = v := rfl

@[simp] theorem children_node (v : α) (cs : List (Tree α)) : (node v cs).children = cs := rfl

@[simp] theorem node_value_children (t : Tree α) : node t.value t.children = t := by
  cases t; rfl

/-- A tree with no children. -/
def leaf (v : α) : Tree α := node v []

/-- To prove a property of all trees, prove it of a node from the property of its children. -/
theorem induct {motive : Tree α → Prop}
    (node : ∀ v cs, (∀ c ∈ cs, motive c) → motive (node v cs)) (t : Tree α) : motive t :=
  Tree.rec (motive_1 := motive) (motive_2 := fun cs => ∀ c ∈ cs, motive c)
    (fun v cs ih => node v cs ih)
    (fun _ h => absurd h List.not_mem_nil)
    (fun _ _ hhead htail c h => by
      rcases List.mem_cons.1 h with rfl | h
      · exact hhead
      · exact htail c h)
    t

/-! ## Equality -/

mutual

/-- Whether two trees have equal values in the same places. -/
def decEq [DecidableEq α] : (s t : Tree α) → Decidable (s = t)
  | node v cs, node w ds =>
    match (inferInstance : Decidable (v = w)), decEqList cs ds with
    | isTrue hv, isTrue hc => isTrue (by rw [hv, hc])
    | isFalse hv, _ => isFalse fun h => hv (by injection h)
    | _, isFalse hc => isFalse fun h => hc (by injection h)

/-- Whether two lists of trees are equal. -/
def decEqList [DecidableEq α] : (ss ts : List (Tree α)) → Decidable (ss = ts)
  | [], [] => isTrue rfl
  | [], _ :: _ => isFalse (by simp)
  | _ :: _, [] => isFalse (by simp)
  | s :: ss, t :: ts =>
    match decEq s t, decEqList ss ts with
    | isTrue hs, isTrue hl => isTrue (by rw [hs, hl])
    | isFalse hs, _ => isFalse fun h => hs (by injection h)
    | _, isFalse hl => isFalse fun h => hl (by injection h)

end

instance [DecidableEq α] : DecidableEq (Tree α) := decEq

/-! ## Size -/

mutual

/-- The number of nodes of a tree. -/
def size : Tree α → Nat
  | node _ cs => sizeAll cs + 1

/-- The number of nodes of a list of trees. -/
def sizeAll : List (Tree α) → Nat
  | [] => 0
  | t :: ts => t.size + sizeAll ts

end

@[simp] theorem sizeAll_append (ss ts : List (Tree α)) :
    sizeAll (ss ++ ts) = sizeAll ss + sizeAll ts := by
  induction ss with
  | nil => simp [sizeAll]
  | cons s ss ih => simp [sizeAll, ih, Nat.add_assoc]

@[simp] theorem sizeAll_reverse (ts : List (Tree α)) : sizeAll ts.reverse = sizeAll ts := by
  induction ts with
  | nil => rfl
  | cons t ts ih => simp [sizeAll, ih, Nat.add_comm]

/-! ## Pre-order -/

mutual

/-- The tree itself and then the subtrees of its children, in order. -/
def preorder : Tree α → List (Tree α)
  | node v cs => node v cs :: preorderAll cs

/-- The subtrees of a list of trees, one tree after the other. -/
def preorderAll : List (Tree α) → List (Tree α)
  | [] => []
  | t :: ts => t.preorder ++ preorderAll ts

end

/-- The subtrees of the pending trees in pre-order: the first pending tree is listed and its
children become pending before the others. -/
def walk : (pending : List (Tree α)) → List (Tree α)
  | [] => []
  | node v cs :: rest => node v cs :: walk (cs ++ rest)
termination_by pending => sizeAll pending
decreasing_by simp [sizeAll, size]

/-- The state after visits to what is on a stack. The last tree is taken off and visited, and its
children are put on in reverse, so that the first of them comes next. -/
def visitStack {σ : Type} (visitor : σ → Tree α → σ) (state : σ) (stack : Array (Tree α)) : σ :=
  match _top : stack.back? with
  | none => state
  | some t => visitStack visitor (visitor state t) (stack.pop ++ t.children.reverse)
termination_by sizeAll stack.toList
decreasing_by
  obtain ⟨below, rfl⟩ := Array.back?_eq_some_iff.1 _top
  cases t
  simp [sizeAll, size]

/-- The state after visits to a tree and to what is below it. -/
def visit {σ : Type} (visitor : σ → Tree α → σ) (state : σ) (t : Tree α) : σ :=
  visitStack visitor state #[t]

mutual

/-- The values of a tree in pre-order, each with its depth, where the root is at `depth`. -/
def outline (depth : Nat) : Tree α → List (Nat × α)
  | node v cs => (depth, v) :: outlineAll (depth + 1) cs

/-- The values of a list of trees in pre-order, each with its depth. -/
def outlineAll (depth : Nat) : List (Tree α) → List (Nat × α)
  | [] => []
  | t :: ts => t.outline depth ++ outlineAll depth ts

end

end Tree

end Thesaurus
