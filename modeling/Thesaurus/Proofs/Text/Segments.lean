import Thesaurus.Text.Segments

/-!
# Parts between separators

- `segments_eq_splitOn`: the parts between separators are those of the library.
- `not_mem_of_mem_segments`: there is no separator in a part.
- `exists_segment`: what is no separator lies in a part.
- `segments_append`: the parts of a text that ends with a separator, and of what follows.
-/

namespace Thesaurus

namespace Text

variable {s : List Char} {separator c : Char}

theorem segments_eq_splitOn : segments separator s = s.splitOn separator := by
  induction s with
  | nil => rfl
  | cons c rest ih =>
    rw [segments, List.splitOn_cons_eq_if_modifyHead, ih]
    by_cases hsame : c = separator
    · rw [if_pos hsame, if_pos (beq_iff_eq.2 hsame)]
    · rw [if_neg hsame, if_neg (by simpa using hsame)]
      cases hparts : rest.splitOn separator with
      | nil => exact absurd hparts (List.splitOn_ne_nil _ _)
      | cons first others => rfl

/-- There is no separator in a part. -/
theorem not_mem_of_mem_segments {part : List Char} (h : part ∈ segments separator s) :
    separator ∉ part := by
  induction s generalizing part with
  | nil =>
    rw [List.mem_singleton.1 h]
    exact List.not_mem_nil
  | cons c rest ih =>
    rw [segments] at h
    split at h
    · rcases List.mem_cons.1 h with rfl | h
      · exact List.not_mem_nil
      · exact ih h
    · next hother =>
      split at h
      · rw [List.mem_singleton.1 h, List.mem_singleton]
        exact Ne.symm hother
      · next first others hparts =>
        rw [hparts] at ih
        rcases List.mem_cons.1 h with rfl | h
        · rw [List.mem_cons, not_or]
          exact ⟨Ne.symm hother, ih List.mem_cons_self⟩
        · exact ih (List.mem_cons_of_mem _ h)

/-- What is put together has only the separator and what is in the parts. -/
theorem mem_intercalate {parts : List (List Char)} (h : c ∈ [separator].intercalate parts) :
    c = separator ∨ ∃ part ∈ parts, c ∈ part := by
  induction parts with
  | nil => cases h
  | cons part rest ih =>
    cases rest with
    | nil =>
      rw [List.intercalate_singleton] at h
      exact .inr ⟨part, List.mem_cons_self, h⟩
    | cons next later =>
      rw [List.intercalate_cons_cons, List.append_assoc, List.mem_append, List.mem_append,
        List.mem_singleton] at h
      rcases h with h | h | h
      · exact .inr ⟨part, List.mem_cons_self, h⟩
      · exact .inl h
      · refine (ih h).imp id ?_
        rintro ⟨other, hother, hc⟩
        exact ⟨other, List.mem_cons_of_mem _ hother, hc⟩

/-- What is no separator lies in a part. -/
theorem exists_segment (h : c ∈ s) (hc : c ≠ separator) :
    ∃ part ∈ segments separator s, c ∈ part := by
  have hs : [separator].intercalate (segments separator s) = s := by
    rw [segments_eq_splitOn, List.intercalate_splitOn]
  rw [← hs] at h
  exact (mem_intercalate h).resolve_left hc

/-- A text without separators is a part of its own where a separator follows. -/
theorem segments_append (h : separator ∉ s) (rest : List Char) :
    segments separator (s ++ separator :: rest) = s :: segments separator rest := by
  induction s with
  | nil => rw [List.nil_append, segments, if_pos rfl]
  | cons d s ih =>
    rw [List.mem_cons, not_or] at h
    rw [List.cons_append, segments, if_neg (Ne.symm h.1), ih h.2]

end Text

end Thesaurus
