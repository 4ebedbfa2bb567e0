/-!
# JSON values (design §F.8)

- `Json`: the values, where numbers are natural and objects list their fields in order.
- `Json.field?`: the value of a field.
- `Json.compact`, `Json.pretty`: the written forms, on one line and indented.
-/

namespace Thesaurus

/-- A JSON value. Numbers are natural, and the fields of an object have an order. -/
inductive Json where
  | null
  | bool (value : Bool)
  | number (value : Nat)
  | string (value : String)
  | array (items : List Json)
  | object (fields : List (String × Json))
deriving Inhabited

namespace Json

/-- The value of the first field with the given name. -/
def field? (fields : List (String × Json)) (name : String) : Option Json :=
  fields.lookup name

/-- A field that is left out if there is no value. -/
def optional {α : Type} (name : String) (encode : α → Json) : Option α → List (String × Json)
  | some a => [(name, encode a)]
  | none => []

/-! ## Writing -/

/-- The digit `n < 16` in lower-case hexadecimal. -/
def hexDigit (n : Nat) : Char :=
  if n < 10 then Char.ofNat (0x30 + n) else Char.ofNat (0x61 + (n - 10))

/-- A character inside a written text: quotes, backslashes and controls are escaped. -/
def writeChar (c : Char) : String :=
  match c with
  | '\x22' => "\\\""
  | '\\' => "\\\\"
  | '\x08' => "\\b"
  | '\x0c' => "\\f"
  | '\n' => "\\n"
  | '\r' => "\\r"
  | '\t' => "\\t"
  | c =>
    if c.toNat < 0x20 then
      "\\u00".push (hexDigit (c.toNat / 16)) |>.push (hexDigit (c.toNat % 16))
    else c.toString

/-- A written text, in quotes. -/
def writeString (s : String) : String :=
  s.foldl (fun out c => out ++ writeChar c) "\"" ++ "\""

mutual

/-- A value written on one line without blanks. -/
def compact : Json → String
  | null => "null"
  | bool b => if b then "true" else "false"
  | number n => toString n
  | string s => writeString s
  | array [] => "[]"
  | array (first :: rest) => "[" ++ compact first ++ compactItems rest ++ "]"
  | object [] => "\x7b\x7d"
  | object ((name, value) :: rest) =>
    "\x7b" ++ writeString name ++ ":" ++ compact value ++ compactFields rest ++ "\x7d"

/-- Further items of an array, each after a comma. -/
def compactItems : List Json → String
  | [] => ""
  | item :: rest => "," ++ compact item ++ compactItems rest

/-- Further fields of an object, each after a comma. -/
def compactFields : List (String × Json) → String
  | [] => ""
  | (name, value) :: rest =>
    "," ++ writeString name ++ ":" ++ compact value ++ compactFields rest

end

/-- A line break followed by two blanks for each level of depth. -/
def newLine (depth : Nat) : String :=
  "\n".pushn ' ' (2 * depth)

mutual

/-- A value written over several lines, where containers that are not empty indent their contents
by two blanks more than their own `depth`. -/
def prettyAt (depth : Nat) : Json → String
  | array (first :: rest) =>
    "[" ++ newLine (depth + 1) ++ prettyAt (depth + 1) first ++ prettyItems (depth + 1) rest
      ++ newLine depth ++ "]"
  | object ((name, value) :: rest) =>
    "\x7b" ++ newLine (depth + 1) ++ writeString name ++ ": " ++ prettyAt (depth + 1) value
      ++ prettyFields (depth + 1) rest ++ newLine depth ++ "\x7d"
  | null => "null"
  | bool b => if b then "true" else "false"
  | number n => toString n
  | string s => writeString s
  | array [] => "[]"
  | object [] => "\x7b\x7d"

/-- Further items of an array, each on a line of its own. -/
def prettyItems (depth : Nat) : List Json → String
  | [] => ""
  | item :: rest => "," ++ newLine depth ++ prettyAt depth item ++ prettyItems depth rest

/-- Further fields of an object, each on a line of its own. -/
def prettyFields (depth : Nat) : List (String × Json) → String
  | [] => ""
  | (name, value) :: rest =>
    "," ++ newLine depth ++ writeString name ++ ": " ++ prettyAt depth value
      ++ prettyFields depth rest

end

/-- A value written over several lines. -/
def pretty (j : Json) : String :=
  prettyAt 0 j

/-! ## Reading -/

/-- A text. -/
def asString? : Json → Option String
  | string s => some s
  | _ => none

/-- A truth value. -/
def asBool? : Json → Option Bool
  | bool b => some b
  | _ => none

/-- A number. -/
def asNat? : Json → Option Nat
  | number n => some n
  | _ => none

/-- A field that may be missing or null. The outer option tells whether it could be read. -/
def readOptional {α : Type} (decode : Json → Option α) (fields : List (String × Json))
    (name : String) : Option (Option α) :=
  match field? fields name with
  | none | some null => some none
  | some value => (decode value).map some

/-- A field that has a default value when it is missing. -/
def readDefault {α : Type} (default : α) (decode : Json → Option α)
    (fields : List (String × Json)) (name : String) : Option α :=
  match field? fields name with
  | none => some default
  | some value => decode value

end Json

end Thesaurus
