import Thesaurus.Text.Percent

/-!
# Escapes

What readers of texts with escapes share.

- `charOf?`: the character that hexadecimal digits name.
- `prepend`, `prependEscaped`: the outcome of a reader with one more character in front.
-/

namespace Thesaurus

namespace Text

/-- The character of a hexadecimal number, unless it is a surrogate or beyond Unicode. -/
def charOf? (digits : List Char) : Option Char :=
  match digits.mapM hexValue? with
  | none => none
  | some values =>
    let n := values.foldl (fun n d => 16 * n + d) 0
    if n.isValidChar then some (Char.ofNat n) else none

/-- What a reader of text found, with one more character in front. -/
def prepend (c : Char) : Option (List Char × List Char) → Option (List Char × List Char)
  | some (s, rest) => some (c :: s, rest)
  | none => none

/-- Prepends the character that an escape stands for, if there is one. -/
def prependEscaped (c : Option Char) (found : Option (List Char × List Char)) :
    Option (List Char × List Char) :=
  match c with
  | some c => prepend c found
  | none => none

end Text

end Thesaurus
