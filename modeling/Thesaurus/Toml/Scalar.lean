import Thesaurus.Number.Binary64
import Thesaurus.Text.Percent
import Thesaurus.Text.Segments
import Thesaurus.Toml.Value

/-!
# Unquoted values of TOML (design §E)

- `isInteger`, `isFloat`, `isDate`, `isTime`, `isDateTime`: which words are numbers, dates and
  times.
- `Value.ofWord?`: the value that a word stands for.
- `readWord`: the unquoted value at the front of a document.
-/

namespace Thesaurus

namespace Toml

/-! ## Numbers -/

/-- One or more digits, between which single underscores may stand. -/
def isGrouped (isDigit : Char → Bool) (s : List Char) : Bool :=
  (Text.segments '_' s).all fun part => !part.isEmpty && part.all isDigit

/-- The characters of a number without the underscores. -/
def ungrouped (s : List Char) : List Char :=
  s.filter (· != '_')

/-- Decimal digits without needless zeros in front. -/
def isWhole (s : List Char) : Bool :=
  isGrouped Char.isDigit s && (s == ['0'] || s.head? != some '0')

/-- Whether digits in the given base stand for a number below the given bound. -/
def isBelow (base bound : Nat) (digits : List Char) : Bool :=
  match (ungrouped digits).mapM Text.hexValue? with
  | some values => values.all (· < base) && values.foldl (fun n d => base * n + d) 0 < bound
  | none => false

/-- Every whole number of 64 bits is below this bound, and no negative one is below its opposite. -/
def wholeBound : Nat := 0x8000000000000000

/-- A whole number of 64 bits with a sign: decimal, or without a sign in base 16, 8 or 2. -/
def isInteger : List Char → Bool
  | '0' :: 'x' :: digits =>
    isGrouped (fun c => (Text.hexValue? c).isSome) digits && isBelow 16 wholeBound digits
  | '0' :: 'o' :: digits => isGrouped Char.isDigit digits && isBelow 8 wholeBound digits
  | '0' :: 'b' :: digits => isGrouped Char.isDigit digits && isBelow 2 wholeBound digits
  | '-' :: digits => isWhole digits && isBelow 10 (wholeBound + 1) digits
  | '+' :: digits => isWhole digits && isBelow 10 wholeBound digits
  | digits => isWhole digits && isBelow 10 wholeBound digits

/-- An exponent: an `e`, an optional sign, and digits. -/
def isExponent : List Char → Bool
  | c :: rest => (c == 'e' || c == 'E') && isGrouped Char.isDigit (Decimal.splitSign rest).2
  | [] => false

/-- Digits and underscores in front of a word, and what follows them. -/
def splitDigits (s : List Char) : List Char × List Char :=
  (s.takeWhile fun c => c.isDigit || c == '_', s.dropWhile fun c => c.isDigit || c == '_')

/-- A fraction or an exponent, or both. -/
def isFractional : List Char → Bool
  | '.' :: rest =>
    let (fraction, exponent) := splitDigits rest
    isGrouped Char.isDigit fraction && (exponent.isEmpty || isExponent exponent)
  | rest => isExponent rest

/-- A number with a fraction or an exponent, or one of the two special numbers. What would be
positive infinity by rounding is none. -/
def isFloat (s : List Char) : Bool :=
  let (negative, rest) := Decimal.splitSign s
  let (whole, fraction) := splitDigits rest
  rest == ['i', 'n', 'f'] || rest == ['n', 'a', 'n'] ||
    isWhole whole && isFractional fraction &&
      (negative || (Binary64.read? (ungrouped rest)).isSome)

/-! ## Dates and times -/

/-- Whether two digits stand for a number between the bounds. -/
def isBetween (low high : Nat) (a b : Char) : Bool :=
  let n := Decimal.valueOf [a, b]
  a.isDigit && b.isDigit && low ≤ n && n ≤ high

/-- The days of a month. -/
def daysIn (year month : Nat) : Nat :=
  if month = 2 then
    if year % 4 = 0 && (year % 100 != 0 || year % 400 = 0) then 29 else 28
  else if month = 4 || month = 6 || month = 9 || month = 11 then 30
  else 31

/-- A date: year, month and day. -/
def isDate : List Char → Bool
  | [y₁, y₂, y₃, y₄, '-', m₁, m₂, '-', d₁, d₂] =>
    [y₁, y₂, y₃, y₄].all Char.isDigit && isBetween 1 12 m₁ m₂ &&
      isBetween 1 (daysIn (Decimal.valueOf [y₁, y₂, y₃, y₄]) (Decimal.valueOf [m₁, m₂])) d₁ d₂
  | _ => false

/-- What follows the time at the front of a word: hours, minutes, seconds and an optional fraction.
A minute may have a leap second. -/
def afterTime? : List Char → Option (List Char)
  | h₁ :: h₂ :: ':' :: m₁ :: m₂ :: ':' :: s₁ :: s₂ :: rest =>
    if isBetween 0 23 h₁ h₂ && isBetween 0 59 m₁ m₂ && isBetween 0 60 s₁ s₂ then
      match rest with
      | '.' :: fraction =>
        if (fraction.takeWhile Char.isDigit).isEmpty then none
        else some (fraction.dropWhile Char.isDigit)
      | rest => some rest
    else none
  | _ => none

/-- A distance from universal time, or the letter for none. -/
def isOffset : List Char → Bool
  | [c] => c == 'Z' || c == 'z'
  | [sign, h₁, h₂, ':', m₁, m₂] =>
    (sign == '+' || sign == '-') && isBetween 0 23 h₁ h₂ && isBetween 0 59 m₁ m₂
  | _ => false

/-- A time of a day. -/
def isTime (s : List Char) : Bool :=
  afterTime? s == some []

/-- A time of a day with an optional offset. -/
def isTimeWithOffset (s : List Char) : Bool :=
  match afterTime? s with
  | some rest => rest.isEmpty || isOffset rest
  | none => false

/-- A date and a time with a `T` between them. -/
def isDateTime (s : List Char) : Bool :=
  match s.drop 10 with
  | c :: time => isDate (s.take 10) && (c == 'T' || c == 't') && isTimeWithOffset time
  | [] => false

/-! ## Words -/

/-- The value that an unquoted word stands for. -/
def Value.ofWord? (word : List Char) : Option Value :=
  if word == ['t', 'r', 'u', 'e'] then some (.boolean true)
  else if word == ['f', 'a', 'l', 's', 'e'] then some (.boolean false)
  else if isInteger word || isFloat word then some (.number (String.ofList word))
  else if isDate word || isTime word || isDateTime word then some (.moment (String.ofList word))
  else none

/-- The characters of unquoted values. -/
def isWordChar (c : Char) : Bool :=
  c.isAlphanum || ['+', '-', '_', '.', ':'].contains c

/-- The unquoted value at the front of a document. A blank may stand between a date and a time. -/
def readWord (s : List Char) : Option (Value × List Char) :=
  let word := s.takeWhile isWordChar
  let rest := s.dropWhile isWordChar
  let time := (rest.drop 1).takeWhile isWordChar
  if isDate word && rest.head? == some ' ' && isTimeWithOffset time then
    some (.moment (String.ofList (word ++ ' ' :: time)), (rest.drop 1).dropWhile isWordChar)
  else (Value.ofWord? word).map (·, rest)

end Toml

end Thesaurus
