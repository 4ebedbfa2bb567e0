import Thesaurus.Text.Composition

/-!
# Percent encoding (design §F.3)

The form of an IRI that can be used as a URL: normalised, with every character outside the safe
ASCII ones written byte by byte as `%XX`.

- `isUrlSafe`: the characters that stand for themselves.
- `percentEncode`, `percentDecode`: characters to safe characters, and back to bytes.
- `urlForm?`: the URL form of an IRI, if it differs from the IRI.
-/

namespace Thesaurus

namespace Text

/-- ASCII characters that stand for themselves: no controls, no blank, none of the nine listed. -/
def isUrlSafe (c : Char) : Bool :=
  0x20 < c.toNat && c.toNat < 0x7F &&
    c ∉ ['\x22', '<', '>', '\x60', '\x7b', '\x7d', '|', '\\', '^']

/-- The digit `n < 16` in upper-case hexadecimal. -/
def upperHexDigit (n : Nat) : Char :=
  if n < 10 then Char.ofNat (0x30 + n) else Char.ofNat (0x41 + (n - 10))

/-- The value of a hexadecimal digit of either case. -/
def hexValue? (c : Char) : Option Nat :=
  if '0' ≤ c && c ≤ '9' then some (c.toNat - 0x30)
  else if 'A' ≤ c && c ≤ 'F' then some (c.toNat - 0x41 + 10)
  else if 'a' ≤ c && c ≤ 'f' then some (c.toNat - 0x61 + 10)
  else none

/-- A byte written as `%XX`. -/
def percentByte (b : UInt8) : List Char :=
  ['%', upperHexDigit (b.toNat / 16), upperHexDigit (b.toNat % 16)]

/-- Safe characters as they are, all others as the bytes of their UTF-8 form. -/
def percentEncode (s : List Char) : List Char :=
  s.flatMap fun c => if isUrlSafe c then [c] else (String.utf8EncodeChar c).flatMap percentByte

/-- The bytes that a percent-encoded text stands for. A `%` without two digits stands for itself. -/
def percentDecode : List Char → List UInt8
  | [] => []
  | '%' :: a :: b :: rest =>
    match hexValue? a, hexValue? b with
    | some high, some low => UInt8.ofNat (16 * high + low) :: percentDecode rest
    | _, _ => String.utf8EncodeChar '%' ++ percentDecode (a :: b :: rest)
  | c :: rest => String.utf8EncodeChar c ++ percentDecode rest

/-- The URL form of an IRI in a normal form of texts, or none when the IRI already is its own URL
form. -/
def urlFormBy? (normalize : String → String) (iri : String) : Option String :=
  let url := String.ofList (percentEncode (normalize iri).toList)
  if url = iri then none else some url

/-- The URL form of an IRI, or none when the IRI already is its own URL form (§F.3). -/
def urlForm? : String → Option String :=
  urlFormBy? composed

end Text

end Thesaurus
