import Mathlib.Data.List.Nodup

/-!
# Lists

What is needed of lists in several places and is no matter of resources or trees.

- `mem_of_lookup`: what is looked up is an entry.
- `nodup_eraseDups`: a list without its repetitions.
-/

namespace Thesaurus

/-- What is looked up is an entry of the list. -/
theorem mem_of_lookup {α β : Type} [BEq α] [LawfulBEq α] {l : List (α × β)} {a : α} {b : β}
    (h : l.lookup a = some b) : (a, b) ∈ l := by
  obtain ⟨before, after, rfl, _⟩ := List.lookup_eq_some_iff.1 h
  simp

/-- The elements of a list are listed once. -/
theorem nodup_eraseDups {α : Type} [DecidableEq α] : ∀ l : List α, l.eraseDups.Nodup
  | [] => by simp
  | a :: rest => by
    rw [List.eraseDups_cons, List.nodup_cons]
    refine ⟨?_, nodup_eraseDups (rest.filter fun b => !b == a)⟩
    rw [List.mem_eraseDups]
    simp
termination_by l => l.length
decreasing_by exact Nat.lt_succ_of_le (List.length_filter_le _ _)

end Thesaurus
