/-!
# Segments

- `segments`: the parts of a text between the occurrences of a separator.
- `joinSegments`: parts put together with the separator between them.
-/

namespace Thesaurus

namespace Text

/-- The parts of `s` between the occurrences of `separator`. A text without the separator is one
part, and the empty text is one empty part. -/
def segments (separator : Char) : List Char → List (List Char)
  | [] => [[]]
  | c :: rest =>
    if c = separator then [] :: segments separator rest
    else
      match segments separator rest with
      | [] => [[c]]
      | first :: others => (c :: first) :: others

/-- The parts, in order, with `separator` between neighbours. -/
def joinSegments (separator : Char) : List (List Char) → List Char
  | [] => []
  | [part] => part
  | part :: others => part ++ separator :: joinSegments separator others

end Text

end Thesaurus
