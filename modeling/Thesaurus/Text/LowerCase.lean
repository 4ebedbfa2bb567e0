import Thesaurus.Text.LowerCase.Table

/-!
# Lower case (design §4.4, §4.5)

Full Unicode lower-casing of a text, independent of language, by which labels and notations are
compared regardless of case.

- `lowerChar`: the lower case of a character on its own, which may be several characters.
- `isFinalSigma`: whether a capital sigma ends a word, where its small form differs.
- `lowerCase`: the lower case of a text.
-/

namespace Thesaurus

namespace Text

/-- The property Cased: letters that belong to an upper, lower or title case. -/
def isCased (c : Char) : Bool :=
  inRanges c.toNat casedRanges

/-- The property Case_Ignorable: marks and punctuation that may stand inside a word. -/
def isCaseIgnorable (c : Char) : Bool :=
  inRanges c.toNat ignorableRanges

/-- The lower case of a character on its own. A capital I with a dot above keeps its dot. -/
def lowerChar (c : Char) : List Char :=
  if c = '\u0130' then ['i', '\u0307']
  else
    match lowerSpans.find? (·.covers c.toNat) with
    | some span => [Char.ofNat (c.toNat + span.offset).toNat]
    | none => [c]

/-- Whether the nearest character of `s` that is not case-ignorable is a cased letter. -/
def meetsCased (s : List Char) : Bool :=
  (s.dropWhile isCaseIgnorable).head?.any isCased

/-- Whether a capital sigma ends a word: `before` (nearest character first) holds a letter of the
word and `after` goes on without one. -/
def isFinalSigma (before after : List Char) : Bool :=
  meetsCased before && !meetsCased after

/-- The lower case of `s`, which follows the characters `before`, nearest first. -/
def lowerCharsAfter (before : List Char) : List Char → List Char
  | [] => []
  | c :: rest =>
    (if c = 'Σ' && isFinalSigma before rest then ['ς'] else lowerChar c) ++
      lowerCharsAfter (c :: before) rest

/-- The lower case of a text. -/
def lowerCase (s : String) : String :=
  String.ofList (lowerCharsAfter [] s.toList)

end Text

end Thesaurus
