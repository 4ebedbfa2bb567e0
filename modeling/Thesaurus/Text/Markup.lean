/-!
# Markup-safe text (design §D)

The five characters that mean something in markup are written as entities.

- `escape`: a text with its markup characters written as entities.
- `unescape`: a text with the five entities read back, from left to right.
-/

namespace Thesaurus

namespace Text

namespace Markup

/-- A character as it is written: an entity for `&`, `<`, `>` and both quotes, else itself. -/
def escapeChar (c : Char) : List Char :=
  match c with
  | '&' => ['&', 'a', 'm', 'p', ';']
  | '<' => ['&', 'l', 't', ';']
  | '>' => ['&', 'g', 't', ';']
  | '\x22' => ['&', 'q', 'u', 'o', 't', ';']
  | '\x27' => ['&', '#', '3', '9', ';']
  | c => [c]

/-- The characters of a text with the markup characters written as entities. -/
def escapeChars (s : List Char) : List Char :=
  s.flatMap escapeChar

/-- A text with its markup characters written as entities (`escape_markup`). -/
def escape (s : String) : String :=
  String.ofList (escapeChars s.toList)

/-- The characters of a text with the five entities read back, from left to right. -/
def unescapeChars : List Char → List Char
  | '&' :: 'a' :: 'm' :: 'p' :: ';' :: rest => '&' :: unescapeChars rest
  | '&' :: 'l' :: 't' :: ';' :: rest => '<' :: unescapeChars rest
  | '&' :: 'g' :: 't' :: ';' :: rest => '>' :: unescapeChars rest
  | '&' :: 'q' :: 'u' :: 'o' :: 't' :: ';' :: rest => '\x22' :: unescapeChars rest
  | '&' :: '#' :: '3' :: '9' :: ';' :: rest => '\x27' :: unescapeChars rest
  | c :: rest => c :: unescapeChars rest
  | [] => []

/-- A text with the five entities read back, from left to right. -/
def unescape (s : String) : String :=
  String.ofList (unescapeChars s.toList)

end Markup

end Text

end Thesaurus
