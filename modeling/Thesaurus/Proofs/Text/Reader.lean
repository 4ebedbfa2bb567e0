import Mathlib.Data.List.Basic
import Thesaurus.Text.Reader

/-!
# Repeated readers

A repeated reader takes one thing after the other off the front of its input, so what it comes to on
an input put together from such things follows from one round for each.

- `span_append`: what is taken up to an item of another kind.
- `iterateFor_mono`: a limit that is enough can be raised.
- `iterate_append`: a round that takes something off the front comes to the outcome of the rest.
- `iterate_last`: the last round is the outcome.
- `iterate_keeps`: what every round keeps to holds in the end.
-/

namespace Thesaurus

namespace Text

variable {τ σ : Type} {round : σ → List τ → Option (Round τ σ)} {state state' : σ} {s : List τ}
  {found : σ × List τ}

/-- What has a property is taken up to the first item that has it not. -/
theorem span_append {p : τ → Bool} {front : List τ} (rest : List τ)
    (hfront : ∀ c ∈ front, p c = true) (hrest : ∀ c ∈ rest.head?, p c = false) :
    (front ++ rest).takeWhile p = front ∧ (front ++ rest).dropWhile p = rest := by
  rw [List.takeWhile_append_of_pos hfront, List.dropWhile_append_of_pos hfront]
  cases rest with
  | nil => exact ⟨List.append_nil front, rfl⟩
  | cons c rest =>
    have hc : p c = false := hrest c rfl
    simp [hc]

/-- Rounds that come to an end do so within any greater limit. -/
theorem iterateFor_mono {limit limit' : Nat} (h : iterateFor round limit state s = some found)
    (hle : limit ≤ limit') : iterateFor round limit' state s = some found := by
  induction limit generalizing limit' state s with
  | zero => cases h
  | succ limit ih =>
    obtain ⟨limit', rfl⟩ : ∃ k, limit' = k + 1 := ⟨limit' - 1, by omega⟩
    rw [iterateFor] at h ⊢
    split at h
    · cases h
    · exact h
    · exact ih h (Nat.le_of_succ_le_succ hle)

/-- After a round that takes something, what is left decides. -/
theorem iterate_append {front : List τ} (h : round state (front ++ s) = some (.more state' s))
    (hfront : front ≠ []) (hfound : iterate round state' s = some found) :
    iterate round state (front ++ s) = some found := by
  unfold iterate
  rw [iterateFor, h]
  -- what was taken leaves at least as many rounds as the rest needs
  refine iterateFor_mono hfound ?_
  rw [List.length_append]
  exact Nat.lt_add_of_pos_left (List.length_pos_of_ne_nil hfront)

/-- The last round is the outcome. -/
theorem iterate_last {rest : List τ} (h : round state s = some (.last state' rest)) :
    iterate round state s = some (state', rest) := by
  rw [iterate, iterateFor, h]

/-- What every round keeps to holds in the end. -/
theorem iterate_keeps {P : σ → Prop} {rest : List τ}
    (hmore : ∀ {state state' s rest}, round state s = some (.more state' rest) → P state → P state')
    (hlast : ∀ {state state' s rest}, round state s = some (.last state' rest) → P state → P state')
    (h : iterate round state s = some (state', rest)) (hstate : P state) : P state' := by
  unfold iterate at h
  generalize s.length + 1 = limit at h
  induction limit generalizing state s with
  | zero => cases h
  | succ limit ih =>
    rw [iterateFor] at h
    split at h
    · cases h
    · next hround =>
      cases h
      exact hlast hround hstate
    · next hround => exact ih (hmore hround hstate) h

end Text

end Thesaurus
