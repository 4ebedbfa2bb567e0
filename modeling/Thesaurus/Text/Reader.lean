/-!
# Readers

- `Reader`: takes a value off the front of a list of characters or tokens.
- `iterate`: repeats a reader that tells whether to go on.
-/

namespace Thesaurus

namespace Text

/-- Takes a value off the front of a list, or refuses the list. The list left over comes with the
value. -/
abbrev Reader (τ α : Type) := List τ → Option (α × List τ)

/-- What one round of a repeated reader comes to, with the state and the list that are left: another
round follows, or this was the last one. -/
inductive Round (τ σ : Type) where
  | more (state : σ) (rest : List τ)
  | last (state : σ) (rest : List τ)

/-- Repeats `round`, at most `limit` times. -/
def iterateFor {τ σ : Type} (round : σ → List τ → Option (Round τ σ)) :
    Nat → σ → Reader τ σ
  | 0, _, _ => none
  | limit + 1, state, s =>
    match round state s with
    | none => none
    | some (.last state rest) => some (state, rest)
    | some (.more state rest) => iterateFor round limit state rest

/-- Repeats `round` until it says that it was the last. Every round but the last is expected to
take something, so that there are no more rounds than the list is long, and one. -/
def iterate {τ σ : Type} (round : σ → List τ → Option (Round τ σ)) (state : σ) : Reader τ σ :=
  fun s => iterateFor round (s.length + 1) state s

/-- The rest of a list that starts with the given items. -/
def strip? {τ : Type} [DecidableEq τ] : List τ → List τ → Option (List τ)
  | [], s => some s
  | _ :: _, [] => none
  | a :: start, b :: s => if a = b then strip? start s else none

end Text

end Thesaurus
