import Thesaurus.Text.Composition.Table

/-!
# Canonical composition (design §F.3)

The Unicode normal form in which a letter and its marks are one character wherever such a
character exists: every character is taken apart, marks are put in order, and what can be combined
is combined again.

- `decompose`: the full canonical decomposition, with the marks in order.
- `recompose`: combines each starter with the marks that can reach it.
- `composed`: the composed normal form of a text.
-/

namespace Thesaurus

namespace Text

/-- The combining class: zero for a starter, and for a mark its place in the canonical order. -/
def combiningClass (c : Char) : Nat :=
  let rec find (n : Nat) : List (Nat × Nat × Nat) → Nat
    | [] => 0
    | (first, last, cls) :: rest =>
      if n < first then 0 else if n ≤ last then cls else find n rest
  find c.toNat markClasses

/-! ## Taking apart -/

/-- The Hangul syllables are composed by arithmetic on their leading consonants, vowels and
trailing consonants, which number 19, 21 and 28 (with the absent one). -/
def decomposeHangul (n : Nat) : Option (List Nat) :=
  if 0xAC00 ≤ n && n < 0xAC00 + 19 * 21 * 28 then
    let s := n - 0xAC00
    let lead := 0x1100 + s / (21 * 28)
    let vowel := 0x1161 + s % (21 * 28) / 28
    let trail := 0x11A7 + s % 28
    some (if trail == 0x11A7 then [lead, vowel] else [lead, vowel, trail])
  else none

/-- The one or two characters that the tables give for a code point. -/
def mapping (n : Nat) : Option (List Nat) :=
  match compositionRows.findSome? (fun row =>
      (row.seconds.find? (·.2 == n)).map (fun second => [row.first, second.1])) with
  | some pair => some pair
  | none =>
    match excludedPairs.find? (·.1 == n) with
    | some (_, first, second) => some [first, second]
    | none =>
      singletonRuns.findSome? fun run =>
        if run.first ≤ n then run.replacements[n - run.first]?.map ([·]) else none

/-- A code point taken apart completely. The mappings nest at most three deep. -/
def decomposeCode (n : Nat) : (depth : Nat) → List Nat
  | 0 => [n]
  | depth + 1 =>
    match decomposeHangul n with
    | some parts => parts
    | none =>
      match mapping n with
      | some parts => parts.flatMap (decomposeCode · depth)
      | none => [n]

/-- Puts a mark into a run of marks before the first that is of a higher class. -/
def insertMark (c : Char) : List Char → List Char
  | [] => [c]
  | d :: rest =>
    if combiningClass c < combiningClass d then c :: d :: rest else d :: insertMark c rest

/-- Sorts each run of marks by combining class and leaves the starters in place. -/
def orderMarks (run : List Char) : List Char → List Char
  | [] => run
  | c :: rest =>
    if combiningClass c == 0 then run ++ c :: orderMarks [] rest
    else orderMarks (insertMark c run) rest

/-- The full canonical decomposition of a text. -/
def decompose (s : List Char) : List Char :=
  orderMarks [] (s.flatMap fun c => (decomposeCode c.toNat 3).map Char.ofNat)

/-! ## Putting together -/

/-- The syllable of a leading consonant and a vowel, or of such a syllable and a trailing
consonant. -/
def composeHangul (first second : Nat) : Option Nat :=
  if 0x1100 ≤ first && first < 0x1100 + 19 && 0x1161 ≤ second && second < 0x1161 + 21 then
    some (0xAC00 + ((first - 0x1100) * 21 + (second - 0x1161)) * 28)
  else if 0xAC00 ≤ first && first < 0xAC00 + 19 * 21 * 28 && (first - 0xAC00) % 28 == 0 &&
      0x11A7 < second && second < 0x11A7 + 28 then
    some (first + (second - 0x11A7))
  else none

/-- The character that two characters combine into. -/
def composePair (first second : Char) : Option Char :=
  match composeHangul first.toNat second.toNat with
  | some n => some (Char.ofNat n)
  | none =>
    match compositionRows.find? (·.first == first.toNat) with
    | some row => (row.seconds.lookup second.toNat).map Char.ofNat
    | none => none

/-- Combines `starter` with the characters that follow it. The marks in between, `marks`, did not
combine; a character can reach the starter past them only if its class is above theirs, of which
`highest` is the last. -/
def recomposeFrom (starter : Char) (marks : List Char) (highest : Nat) : List Char → List Char
  | [] => starter :: marks
  | c :: rest =>
    let cls := combiningClass c
    match if marks.isEmpty || highest < cls then composePair starter c else none with
    | some composite => recomposeFrom composite marks highest rest
    | none =>
      if cls == 0 then starter :: marks ++ recomposeFrom c [] 0 rest
      else recomposeFrom starter (marks ++ [c]) cls rest

/-- Combines each starter with the characters that can reach it. -/
def recompose : List Char → List Char
  | [] => []
  | c :: rest => if combiningClass c == 0 then recomposeFrom c [] 0 rest else c :: recompose rest

/-- Characters below the first combining mark are composed as they stand. -/
def isPlain (c : Char) : Bool :=
  c.toNat < 0x300

/-- The composed normal form of a text. -/
def composedChars (s : List Char) : List Char :=
  if s.all isPlain then s else recompose (decompose s)

/-- The composed normal form of a text. -/
def composed (s : String) : String :=
  String.ofList (composedChars s.toList)

end Text

end Thesaurus
