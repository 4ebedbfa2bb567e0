import Thesaurus.Text.Percent
import Thesaurus.Text.Segments

/-!
# IRIs (design §F.7)

An IRI names its parts by their places: scheme, authority, path, query and fragment. A reference may
leave out the first of them and takes them from a base.

`read_triples` is built on a reader of RDF documents, whose rules stand here and in the other
modules on these documents.

- `IriReference.ofChars?`: the parts of a reference, if each consists of the characters it may.
- `IriReference.resolve?`: the reference in full, seen from a base.
- `isIri`: whether a text is an IRI in full.
-/

namespace Thesaurus

namespace Rdf

/-! ## Characters -/

/-- Whether a character lies in one of the given ranges of code points. -/
def inRanges (ranges : List (Nat × Nat)) (c : Char) : Bool :=
  ranges.any fun (low, high) => low ≤ c.toNat && c.toNat ≤ high

/-- The characters beyond ASCII that any part may have. -/
def isForeign (c : Char) : Bool :=
  inRanges [(0xA0, 0xD7FF), (0xF900, 0xFDCF), (0xFDF0, 0xFFEF)] c ||
    (0x10000 ≤ c.toNat && c.toNat < 0xF0000 && c.toNat % 0x10000 < 0xFFFE &&
      !(0xE0000 ≤ c.toNat && c.toNat < 0xE1000))

/-- The characters for private use, which only a query may have. -/
def isPrivate (c : Char) : Bool :=
  inRanges [(0xE000, 0xF8FF), (0xF0000, 0xFFFFD), (0x100000, 0x10FFFD)] c

/-- The characters of ASCII that any part may have. -/
def isAsciiIriChar (c : Char) : Bool :=
  c.isAlphanum ||
    ['-', '.', '_', '~', '!', '$', '&', '\x27', '(', ')', '*', '+', ',', ';', '='].contains c

/-- The characters that any part may have. -/
def isIriChar (c : Char) : Bool :=
  isAsciiIriChar c || isForeign c

/-- Whether a text has only the given characters and bytes written as `%XX`. -/
def consistsOf (allowed : Char → Bool) : List Char → Bool
  | [] => true
  | '%' :: a :: b :: rest =>
    (Text.hexValue? a).isSome && (Text.hexValue? b).isSome && consistsOf allowed rest
  | c :: rest => allowed c && consistsOf allowed rest

/-- The characters that a part may have besides those of all parts. -/
def isIriCharOr (others : List Char) (c : Char) : Bool :=
  isIriChar c || others.contains c

/-! ## Hosts -/

/-- A number of one byte in decimal, without needless zeros. -/
def isOctet (s : List Char) : Bool :=
  !s.isEmpty && s.length ≤ 3 && s.all Char.isDigit && (s.length == 1 || s.head? != some '0') &&
    s.foldl (fun n c => 10 * n + (c.toNat - '0'.toNat)) 0 < 256

/-- Four bytes with dots between them. -/
def isAddress4 (s : List Char) : Bool :=
  let parts := Text.segments '.' s
  parts.length == 4 && parts.all isOctet

/-- One to four hexadecimal digits. -/
def isGroup (s : List Char) : Bool :=
  !s.isEmpty && s.length ≤ 4 && s.all fun c => (Text.hexValue? c).isSome

/-- How many groups of two bytes a list with colons between them has, if it is one. Four bytes with
dots may stand in place of the last two groups. -/
def groupCount? (s : List Char) : Option Nat :=
  if s.isEmpty then some 0
  else
    let parts := Text.segments ':' s
    if parts.all isGroup then some parts.length
    else if parts.dropLast.all isGroup && parts.getLast?.any isAddress4 then
      some (parts.length + 1)
    else none

/-- A text before and after the first two colons in a row. -/
def splitColons? : List Char → Option (List Char × List Char)
  | ':' :: ':' :: rest => some ([], rest)
  | c :: rest => (splitColons? rest).map fun (before, rest) => (c :: before, rest)
  | [] => none

/-- Eight groups of two bytes, of which two colons in a row may leave out some. -/
def isAddress6 (s : List Char) : Bool :=
  match splitColons? s with
  | none => groupCount? s == some 8
  | some (before, rest) =>
    match groupCount? before, groupCount? rest with
    | some m, some n => !before.contains '.' && m + n < 8
    | _, _ => false

/-- An address of a form to come: its version and then its text, in ASCII. -/
def isFutureAddress : List Char → Bool
  | c :: rest =>
    let version := rest.takeWhile (· != '.')
    let text := (rest.dropWhile (· != '.')).drop 1
    (c == 'v' || c == 'V') && !version.isEmpty &&
      version.all (fun c => (Text.hexValue? c).isSome) && !text.isEmpty &&
      text.all fun c => isAsciiIriChar c || c == ':'
  | [] => false

/-- Nothing, or a colon and a number. -/
def isNumberSuffix : List Char → Bool
  | [] => true
  | c :: rest => c == ':' && rest.all Char.isDigit

/-- A host, by name or by address in brackets, and possibly a number after a colon. -/
def isHost : List Char → Bool
  | '[' :: rest =>
    let address := rest.takeWhile (· != ']')
    match rest.dropWhile (· != ']') with
    | _ :: suffix => (isAddress6 address || isFutureAddress address) && isNumberSuffix suffix
    | [] => false
  | s => consistsOf isIriChar (s.takeWhile (· != ':')) && isNumberSuffix (s.dropWhile (· != ':'))

/-- A host, and in front of it possibly a user. -/
def isAuthority (s : List Char) : Bool :=
  let user := s.takeWhile fun c => c != '@' && c != '['
  match s.dropWhile fun c => c != '@' && c != '[' with
  | '@' :: host => consistsOf (isIriCharOr [':']) user && isHost host
  | _ => isHost s

/-! ## References -/

/-- The parts of an IRI: what comes before the first colon, what follows two slashes, the path, what
follows the question mark, and what follows the hash. Only the path has to be there. -/
structure IriReference where
  scheme : Option (List Char)
  authority : Option (List Char)
  path : List Char
  query : Option (List Char)
  fragment : Option (List Char)
deriving DecidableEq, Inhabited, Repr

namespace IriReference

/-- The scheme at the front of a text and what follows its colon. -/
def splitScheme (s : List Char) : Option (List Char) × List Char :=
  let isSchemeChar := fun (c : Char) => c.isAlphanum || c == '+' || c == '-' || c == '.'
  match s.dropWhile isSchemeChar with
  | ':' :: rest =>
    if s.head?.any Char.isAlpha then (some (s.takeWhile isSchemeChar), rest) else (none, s)
  | _ => (none, s)

/-- The authority at the front of a text, which follows two slashes, and the rest. -/
def splitAuthority : List Char → Option (List Char) × List Char
  | '/' :: '/' :: rest =>
    let goesOn := fun (c : Char) => c != '/' && c != '?' && c != '#'
    (some (rest.takeWhile goesOn), rest.dropWhile goesOn)
  | s => (none, s)

/-- What follows a character, and what precedes it. -/
def splitAfter (mark : Char) (s : List Char) : List Char × Option (List Char) :=
  match s.dropWhile (· != mark) with
  | _ :: rest => (s.takeWhile (· != mark), some rest)
  | [] => (s, none)

/-- The parts of a text. -/
def split (s : List Char) : IriReference :=
  let (scheme, s) := splitScheme s
  let (authority, s) := splitAuthority s
  let (s, fragment) := splitAfter '#' s
  let (path, query) := splitAfter '?' s
  { scheme, authority, path, query, fragment }

/-- Whether each part consists of the characters it may. -/
def isValid (r : IriReference) : Bool :=
  r.authority.all isAuthority && consistsOf (isIriCharOr [':', '@', '/']) r.path &&
    r.query.all (consistsOf fun c => isIriCharOr [':', '@', '/', '?'] c || isPrivate c) &&
    r.fragment.all (consistsOf (isIriCharOr [':', '@', '/', '?']))

/-- The parts of a text, if they are valid. A text that starts with a colon has no valid parts. -/
def ofChars? (s : List Char) : Option IriReference :=
  if s.head? == some ':' then none
  else
    let r := split s
    if r.isValid then some r else none

/-- The text of a reference. -/
def toChars (r : IriReference) : List Char :=
  r.scheme.elim [] (· ++ [':']) ++ r.authority.elim [] (['/', '/'] ++ ·) ++ r.path ++
    r.query.elim [] ('?' :: ·) ++ r.fragment.elim [] ('#' :: ·)

/-! ## Resolution -/

/-- A path up to its last slash. -/
def directory (path : List Char) : List Char :=
  (path.reverse.dropWhile (· != '/')).reverse

/-- The directory that the directory `path` lies in. Behind an authority the first slash stays. -/
def stepBack (rooted : Bool) (path : List Char) : List Char :=
  match directory path.dropLast with
  | [] => if rooted then ['/'] else []
  | parent => parent

/-- The path to which segments lead from the directory `path`, where some stay and some go back.
Only behind an authority may a path start with two slashes. -/
def follow? (rooted : Bool) (path : List Char) : List (List Char) → Option (List Char)
  | [] => some path
  | segment :: rest =>
    if segment == ['.'] then follow? rooted path rest
    else if segment == ['.', '.'] then follow? rooted (stepBack rooted path) rest
    else if rest.isEmpty then some (path ++ segment)
    else if segment.isEmpty && !rooted && path == ['/'] then none
    else follow? rooted (path ++ segment ++ ['/']) rest

/-- The directory from which relative paths lead on. -/
def start (base : IriReference) : List Char :=
  if base.authority.isSome && base.path.isEmpty then ['/'] else directory base.path

/-- The path that a reference's own path leads to, seen from a base. The first segment of a relative
path has no colon, for what is before the colon would be a scheme. -/
def resolvePath? (base : IriReference) : List Char → Option (List Char)
  | [] => some base.path
  | '/' :: path => follow? base.authority.isSome ['/'] (Text.segments '/' path)
  | path =>
    let segments := Text.segments '/' path
    if segments.head?.any (·.contains ':') then none
    else follow? base.authority.isSome base.start segments

/-- The reference in full, seen from a base that is in full itself. Only a path that takes its
authority from the base leads anywhere; the others stay as they are. -/
def resolve? (base r : IriReference) : Option IriReference :=
  if r.scheme.isSome then some r
  else if r.authority.isSome then some { r with scheme := base.scheme }
  else
    (base.resolvePath? r.path).map fun path =>
      { r with
        scheme := base.scheme
        authority := base.authority
        path
        query := if r.path.isEmpty then r.query.or base.query else r.query }

end IriReference

/-- The parts of a text, if it is an IRI in full. -/
def fullIri? (s : List Char) : Option IriReference :=
  match IriReference.ofChars? s with
  | some r => if r.scheme.isSome then some r else none
  | none => none

/-- Whether a text is an IRI in full. -/
def isIri (s : List Char) : Bool :=
  (fullIri? s).isSome

end Rdf

end Thesaurus
