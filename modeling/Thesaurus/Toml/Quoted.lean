import Thesaurus.Text.Escape

/-!
# Quoted texts of TOML (design §E)

The four ways to write a text: with escapes in double quotes or without in single quotes, on one
line or, within three quotes, over several.

- `Style.of`: the way in which a text is best written.
- `quote`: a text written in that way.
- `readQuoted`: the text at the front of a document, written in any of the four ways.
-/

namespace Thesaurus

namespace Toml

open Text (charOf? prepend prependEscaped)

/-! ## Writing -/

/-- The ways to write a text: in double or in single quotes, on one line or over several lines. -/
inductive Style where
  | basic
  | literal
  | longBasic
  | longLiteral
deriving DecidableEq, Repr

/-- A control character of ASCII. -/
def isControl (c : Char) : Bool :=
  c.toNat < 0x20 || c.toNat == 0x7F

/-- A control character that is written as an escape wherever it stands. -/
def needsEscape (c : Char) : Bool :=
  isControl c && c != '\t' && c != '\n'

/-- The length of the longest run of `c`, where the run in front of `s` has begun with `run`. -/
def longestRunFrom (c : Char) (run : Nat) : List Char → Nat
  | [] => run
  | d :: rest =>
    if d = c then longestRunFrom c (run + 1) rest else max run (longestRunFrom c 0 rest)

/-- The length of the longest run of `c`. -/
def longestRun (c : Char) (s : List Char) : Nat :=
  longestRunFrom c 0 s

/-- The way in which a text is written: the first that needs no escape, and else with escapes. The
lines of a text are kept apart. -/
def Style.of (s : List Char) : Style :=
  let lines := s.contains '\n'
  let backslash := s.contains '\\'
  let doubles := longestRun '\x22' s
  let singles := longestRun '\x27' s
  if s.any needsEscape then if lines then .longBasic else .basic
  else if !backslash && doubles == 0 && !lines then .basic
  else if singles == 0 && !lines then .literal
  else if !backslash && doubles ≤ 2 then .longBasic
  else if singles ≤ 2 then .longLiteral
  else if lines then .longBasic
  else .basic

/-- The four hexadecimal digits of a number. -/
def hexDigits4 (n : Nat) : List Char :=
  [Text.upperHexDigit (n / 4096 % 16), Text.upperHexDigit (n / 256 % 16),
    Text.upperHexDigit (n / 16 % 16), Text.upperHexDigit (n % 16)]

/-- A character other than a quote between double quotes. -/
def escapeBasic (long : Bool) (c : Char) : List Char :=
  match c with
  | '\x08' => ['\\', 'b']
  | '\t' => ['\\', 't']
  | '\n' => if long then ['\n'] else ['\\', 'n']
  | '\x0c' => ['\\', 'f']
  | '\r' => ['\\', 'r']
  | '\\' => ['\\', '\\']
  | c => if isControl c then '\\' :: 'u' :: hexDigits4 c.toNat else [c]

/-- The characters between double quotes, after `run` quotes that are written as they are. Over
several lines two quotes in a row may be. -/
def escapeBasicFrom (long : Bool) (run : Nat) : List Char → List Char
  | [] => []
  | c :: rest =>
    if c = '\x22' then
      if long && run < 2 then '\x22' :: escapeBasicFrom long (run + 1) rest
      else '\\' :: '\x22' :: escapeBasicFrom long 0 rest
    else escapeBasic long c ++ escapeBasicFrom long 0 rest

/-- The line break after three quotes, which is not part of the text, if the text has lines. -/
def openingBreak (s : List Char) : List Char :=
  if s.contains '\n' then ['\n'] else []

/-- A text written in the given way. -/
def quoteIn (s : List Char) : Style → List Char
  | .basic => '\x22' :: escapeBasicFrom false 0 s ++ ['\x22']
  | .literal => '\x27' :: s ++ ['\x27']
  | .longBasic =>
    ['\x22', '\x22', '\x22'] ++ openingBreak s ++ escapeBasicFrom true 0 s ++
      ['\x22', '\x22', '\x22']
  | .longLiteral =>
    ['\x27', '\x27', '\x27'] ++ openingBreak s ++ s ++ ['\x27', '\x27', '\x27']

/-- A text written in the way that suits it. -/
def quote (s : List Char) : List Char :=
  quoteIn s (.of s)

/-! ## Reading -/

/-- The character that a backslash and a letter stand for. -/
def namedEscape? : Char → Option Char
  | 'b' => some '\x08'
  | 't' => some '\t'
  | 'n' => some '\n'
  | 'f' => some '\x0c'
  | 'r' => some '\r'
  | '\x22' => some '\x22'
  | '\\' => some '\\'
  | _ => none

/-- A character that stands for itself between quotes on one line. -/
def isPlain (c : Char) : Bool :=
  !isControl c || c == '\t'

/-- The text up to a double quote, where escapes are resolved. -/
def readBasic : List Char → Option (List Char × List Char)
  | [] => none
  | '\x22' :: rest => some ([], rest)
  | '\\' :: 'u' :: a :: b :: c :: d :: rest =>
    prependEscaped (charOf? [a, b, c, d]) (readBasic rest)
  | '\\' :: 'U' :: a :: b :: c :: d :: e :: f :: g :: h :: rest =>
    prependEscaped (charOf? [a, b, c, d, e, f, g, h]) (readBasic rest)
  | '\\' :: c :: rest => prependEscaped (namedEscape? c) (readBasic rest)
  | c :: rest => if isPlain c then prepend c (readBasic rest) else none

/-- The text up to a single quote. -/
def readLiteral : List Char → Option (List Char × List Char)
  | [] => none
  | '\x27' :: rest => some ([], rest)
  | c :: rest => if isPlain c then prepend c (readLiteral rest) else none

/-- What follows three closing quotes: up to two more quotes belong to the text. -/
def closeLong (quote : Char) : List Char → List Char × List Char
  | [] => ([], [])
  | a :: rest =>
    if a = quote then
      match rest with
      | [] => ([quote], [])
      | b :: rest' => if b = quote then ([quote, quote], rest') else ([quote], rest)
    else ([], a :: rest)

/-- Whether only blanks precede the next line break. -/
def endsLine : List Char → Bool
  | ' ' :: rest => endsLine rest
  | '\t' :: rest => endsLine rest
  | '\n' :: _ => true
  | '\r' :: '\n' :: _ => true
  | _ => false

/-- The text up to three double quotes. A backslash at the end of a line takes all blanks and line
breaks after it away, which is so while `skipping`. -/
def readLongBasic (skipping : Bool) : List Char → Option (List Char × List Char)
  | [] => none
  | '\n' :: rest =>
    if skipping then readLongBasic true rest else prepend '\n' (readLongBasic false rest)
  | '\r' :: '\n' :: rest =>
    if skipping then readLongBasic true rest else prepend '\n' (readLongBasic false rest)
  | '\x22' :: '\x22' :: '\x22' :: rest => some (closeLong '\x22' rest)
  | '\\' :: 'u' :: a :: b :: c :: d :: rest =>
    prependEscaped (charOf? [a, b, c, d]) (readLongBasic false rest)
  | '\\' :: 'U' :: a :: b :: c :: d :: e :: f :: g :: h :: rest =>
    prependEscaped (charOf? [a, b, c, d, e, f, g, h]) (readLongBasic false rest)
  | '\\' :: c :: rest =>
    if endsLine (c :: rest) then readLongBasic true (c :: rest)
    else prependEscaped (namedEscape? c) (readLongBasic false rest)
  | c :: rest =>
    if skipping && (c == ' ' || c == '\t') then readLongBasic true rest
    else if isPlain c then prepend c (readLongBasic false rest)
    else none

/-- The text up to three single quotes. -/
def readLongLiteral : List Char → Option (List Char × List Char)
  | [] => none
  | '\n' :: rest => prepend '\n' (readLongLiteral rest)
  | '\r' :: '\n' :: rest => prepend '\n' (readLongLiteral rest)
  | '\x27' :: '\x27' :: '\x27' :: rest => some (closeLong '\x27' rest)
  | c :: rest => if isPlain c then prepend c (readLongLiteral rest) else none

/-- A text without the line break that may follow three opening quotes. -/
def dropBreak : List Char → List Char
  | '\n' :: rest => rest
  | '\r' :: '\n' :: rest => rest
  | s => s

/-- The quoted text at the front of a document. -/
def readQuoted : List Char → Option (List Char × List Char)
  | '\x22' :: '\x22' :: '\x22' :: rest => readLongBasic false (dropBreak rest)
  | '\x22' :: rest => readBasic rest
  | '\x27' :: '\x27' :: '\x27' :: rest => readLongLiteral (dropBreak rest)
  | '\x27' :: rest => readLiteral rest
  | _ => none

end Toml

end Thesaurus
