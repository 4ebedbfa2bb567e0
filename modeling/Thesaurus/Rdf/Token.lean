import Thesaurus.Rdf.Iri
import Thesaurus.Rdf.LanguageTag
import Thesaurus.Text.Escape
import Thesaurus.Text.Reader

/-!
# Tokens of RDF documents (design §F.7)

- `Token`: what the lines of a document consist of.
- `tokens?`: the tokens of a text, without blanks and comments.
-/

namespace Thesaurus

namespace Rdf

open Text (Round iterate charOf? prepend prependEscaped)

/-- The tokens of Turtle: references in angle brackets, names with a prefix, labels of blank nodes,
quoted texts, words after an at sign, numbers, other words, punctuation, and the mark between a text
and its type. A name is in doubt if it holds what cannot be part of an IRI, and a text is plain in
double quotes on one line. -/
inductive Token where
  | iri (written : List Char)
  | name (space member : List Char) (doubtful : Bool)
  | blank (label : List Char)
  | string (text : List Char) (plain : Bool)
  | tag (word : List Char)
  | number (written : List Char)
  | word (written : List Char)
  | mark (mark : Char)
  | typeMark
deriving DecidableEq, Repr

/-! ## Characters -/

/-- The letters that a name may start with. -/
def isNameStart (c : Char) : Bool :=
  c.isAlpha || inRanges [(0xC0, 0xD6), (0xD8, 0xF6), (0xF8, 0x2FF), (0x370, 0x37D),
    (0x37F, 0x1FFF), (0x200C, 0x200D), (0x2070, 0x218F), (0x2C00, 0x2FEF), (0x3001, 0xD7FF),
    (0xF900, 0xFDCF), (0xFDF0, 0xFFFD), (0x10000, 0xEFFFF)] c

/-- The characters that a label or the second part of a name may start with. -/
def isLabelStart (c : Char) : Bool :=
  isNameStart c || c == '_' || c.isDigit

/-- The characters of names. -/
def isNameChar (c : Char) : Bool :=
  isLabelStart c || c == '-' || inRanges [(0xB7, 0xB7), (0x300, 0x36F), (0x203F, 0x2040)] c

/-- The characters that a backslash may precede in a name. -/
def isNameEscape (c : Char) : Bool :=
  ['_', '~', '.', '-', '!', '$', '&', '\x27', '(', ')', '*', '+', ',', ';', '=', '/', '?', '#', '@',
    '%'].contains c

/-- The characters of names that make a name's IRI doubtful. Not all that an IRI cannot have are
among them, and a few that it can have are. -/
def isDoubtful (c : Char) : Bool :=
  inRanges [(0xFFF0, 0xFFFD)] c || c.toNat % 0xFFFE == 0 || c.toNat % 0xFFFF == 0

/-- The characters that a backslash may precede in a name, and that make the name doubtful. -/
def isDoubtfulEscape (c : Char) : Bool :=
  ['/', '?', '#', '@', '%'].contains c

/-- The character that a backslash and a letter stand for in a text. -/
def namedEscape? : Char → Option Char
  | 't' => some '\t'
  | 'b' => some '\x08'
  | 'n' => some '\n'
  | 'r' => some '\r'
  | 'f' => some '\x0c'
  | '\x22' => some '\x22'
  | '\x27' => some '\x27'
  | '\\' => some '\\'
  | _ => none

/-! ## Tokens with an end of their own -/

/-- The text up to a closing angle bracket. -/
def readIri : List Char → Option (List Char × List Char)
  | [] => none
  | '>' :: rest => some ([], rest)
  | '\\' :: 'u' :: a :: b :: c :: d :: rest => prependEscaped (charOf? [a, b, c, d]) (readIri rest)
  | '\\' :: 'U' :: a :: b :: c :: d :: e :: f :: g :: h :: rest =>
    prependEscaped (charOf? [a, b, c, d, e, f, g, h]) (readIri rest)
  | c :: rest => if c == '\\' then none else prepend c (readIri rest)

/-- The text up to a quote, within one line. -/
def readShort (quote : Char) : List Char → Option (List Char × List Char)
  | [] => none
  | '\\' :: 'u' :: a :: b :: c :: d :: rest =>
    prependEscaped (charOf? [a, b, c, d]) (readShort quote rest)
  | '\\' :: 'U' :: a :: b :: c :: d :: e :: f :: g :: h :: rest =>
    prependEscaped (charOf? [a, b, c, d, e, f, g, h]) (readShort quote rest)
  | '\\' :: c :: rest => prependEscaped (namedEscape? c) (readShort quote rest)
  | c :: rest =>
    if c == quote then some ([], rest)
    else if c == '\n' || c == '\r' then none
    else prepend c (readShort quote rest)

/-- The text up to three quotes. -/
def readLong (quote : Char) : List Char → Option (List Char × List Char)
  | [] => none
  | '\\' :: 'u' :: a :: b :: c :: d :: rest =>
    prependEscaped (charOf? [a, b, c, d]) (readLong quote rest)
  | '\\' :: 'U' :: a :: b :: c :: d :: e :: f :: g :: h :: rest =>
    prependEscaped (charOf? [a, b, c, d, e, f, g, h]) (readLong quote rest)
  | '\\' :: c :: rest => prependEscaped (namedEscape? c) (readLong quote rest)
  | c :: rest =>
    if c == quote && rest.take 2 == [quote, quote] then some ([], rest.drop 2)
    else prepend c (readLong quote rest)

/-- A text in the given quotes, of which the first has been taken. -/
def readString (quote : Char) (s : List Char) : Option (Token × List Char) :=
  match Text.strip? [quote, quote] s with
  | some rest => (readLong quote rest).map fun (text, rest) => (.string text false, rest)
  | none =>
    (readShort quote s).map fun (text, rest) => (.string text (quote == '\x22'), rest)

/-! ## Tokens that end where others start -/

/-- The characters of a class and dots between them, and the rest. -/
def splitDotted (isChar : Char → Bool) (s : List Char) : List Char × List Char :=
  let run := s.takeWhile fun c => isChar c || c == '.'
  let kept := (run.reverse.dropWhile (· == '.')).reverse
  (kept, s.drop kept.length)

/-- The label of a blank node. -/
def readLabel (s : List Char) : Option (Token × List Char) :=
  match s with
  | c :: _ =>
    if isLabelStart c then
      let (label, rest) := splitDotted isNameChar s
      some (.blank label, rest)
    else none
  | [] => none

/-- The part of a name after its colon. A dot belongs to it only if more of it follows. -/
def readMember (first : Bool) : List Char → Option (List Char × List Char)
  | [] => some ([], [])
  | '%' :: a :: b :: rest =>
    if (Text.hexValue? a).isSome && (Text.hexValue? b).isSome then
      prepend '%' (prepend a (prepend b (readMember false rest)))
    else none
  | '\\' :: c :: rest => if isNameEscape c then prepend c (readMember false rest) else none
  | '.' :: rest =>
    if first then some ([], '.' :: rest)
    else
      match readMember false rest with
      | some ([], _) => some ([], '.' :: rest)
      | found => prepend '.' found
  | c :: rest =>
    if c == '%' || c == '\\' then none
    else if c == ':' || (if first then isLabelStart c else isNameChar c) then
      prepend c (readMember false rest)
    else some ([], c :: rest)

/-- Whether the part of a name after its colon, as it is written, is in doubt. -/
def inDoubt : List Char → Bool
  | '\\' :: c :: rest => isDoubtfulEscape c || inDoubt rest
  | c :: rest => isDoubtful c || inDoubt rest
  | [] => false

/-- A name with a colon, or a word. -/
def readName (s : List Char) : Option (Token × List Char) :=
  let run := s.takeWhile fun c => isNameChar c || c == '.'
  if run.isEmpty || run.head?.any isNameStart then
    match s.drop run.length with
    | ':' :: rest =>
      if run.getLast? == some '.' then none
      else
        (readMember true rest).map fun (member, after) =>
          (.name run member (inDoubt (rest.take (rest.length - after.length))), after)
    | _ =>
      let (word, rest) := splitDotted isNameChar s
      if word.isEmpty then none else some (.word word, rest)
  else none

/-- A sign, if there is one, and what follows it. -/
def splitSign : List Char → List Char × List Char
  | c :: rest => if c == '+' || c == '-' then ([c], rest) else ([], c :: rest)
  | [] => ([], [])

/-- Digits, and what follows them. -/
def splitDigits (s : List Char) : List Char × List Char :=
  (s.takeWhile Char.isDigit, s.dropWhile Char.isDigit)

/-- A point and the digits after it, and what follows them. -/
def splitFraction : List Char → List Char × List Char
  | '.' :: rest => ('.' :: (splitDigits rest).1, (splitDigits rest).2)
  | s => ([], s)

/-- A number. A point at its end does not belong to it. -/
def readNumber (s : List Char) : Option (Token × List Char) :=
  let (sign, s) := splitSign s
  let (whole, s) := splitDigits s
  let (fraction, s) := splitFraction s
  match s with
  | c :: s' =>
    if c == 'e' || c == 'E' then
      let (sign', s') := splitSign s'
      let (digits, rest) := splitDigits s'
      if digits.isEmpty || (whole.isEmpty && fraction.length ≤ 1) then none
      else some (.number (sign ++ whole ++ fraction ++ c :: sign' ++ digits), rest)
    else unscaled sign whole fraction s
  | [] => unscaled sign whole fraction s
where
  /-- A number without an exponent. -/
  unscaled (sign whole fraction rest : List Char) : Option (Token × List Char) :=
    if 2 ≤ fraction.length then some (.number (sign ++ whole ++ fraction), rest)
    else if whole.isEmpty then none
    else some (.number (sign ++ whole), fraction ++ rest)

/-- The word after an at sign. -/
def readTag (s : List Char) : Option (Token × List Char) :=
  let isTagChar := fun (c : Char) => c.isAlphanum || c == '-'
  let word := s.takeWhile isTagChar
  if word.isEmpty then none else some (.tag word, s.dropWhile isTagChar)

/-! ## All tokens -/

/-- The punctuation marks that are tokens wherever they stand. -/
def isMark (c : Char) : Bool :=
  ['[', ']', '(', ')', ',', ';'].contains c

/-- The token at the front of a text. -/
def readToken : List Char → Option (Token × List Char)
  | '<' :: rest => (readIri rest).map fun (iri, rest) => (.iri iri, rest)
  | '_' :: ':' :: rest => readLabel rest
  | '\x22' :: rest => readString '\x22' rest
  | '\x27' :: rest => readString '\x27' rest
  | '@' :: rest => readTag rest
  | '^' :: '^' :: rest => some (.typeMark, rest)
  | '.' :: rest =>
    if rest.head?.any Char.isDigit then readNumber ('.' :: rest) else some (.mark '.', rest)
  | c :: rest =>
    if isMark c then some (.mark c, rest)
    else if c == '+' || c == '-' || c.isDigit then readNumber (c :: rest)
    else readName (c :: rest)
  | [] => none

/-- Whether a character only separates tokens. -/
def isSpace (c : Char) : Bool :=
  c == ' ' || c == '\t' || c == '\n' || c == '\r'

/-- Whether a character ends a comment. -/
def isLineEnd (c : Char) : Bool :=
  c == '\n' || c == '\r'

/-- Reads a token, or skips a comment. -/
def tokenRound (found : Array Token) (s : List Char) : Option (Round Char (Array Token)) :=
  match s.dropWhile isSpace with
  | [] => some (.last found [])
  | '#' :: rest => some (.more found (rest.dropWhile (!isLineEnd ·)))
  | s => (readToken s).map fun (token, rest) => .more (found.push token) rest

/-- The tokens of a text. -/
def tokens? (s : List Char) : Option (List Token) :=
  (iterate tokenRound #[] s).map fun (found, _) => found.toList

end Rdf

end Thesaurus
