/-!
# Binary64 numbers (design §4.5)

Decimal numerals and the finite binary64 numbers nearest to them, as float notations are read and
compared.

- `Decimal`: a numeral, with `Decimal.read?` for its written form.
- `Binary64`: a finite number by its sign and the 63 bits below it.
- `Binary64.ofDecimal?`: the nearest number, ties to even, or none beyond the largest.
- `Binary64.scaled`: the exact value as a multiple of the smallest number.
- `Binary64.compareBits`: the order that puts a negative zero before a positive one.
-/

namespace Thesaurus

/-! ## Decimal numerals -/

/-- The number `± digits · 10 ^ exponent`. -/
structure Decimal where
  negative : Bool
  digits : Nat
  exponent : Int
deriving DecidableEq

namespace Decimal

/-- The number that a list of digits writes. -/
def valueOf (digits : List Char) : Nat :=
  digits.foldl (fun n c => 10 * n + (c.toNat - '0'.toNat)) 0

/-- Reads an optional sign: whether it is a minus, and what follows. -/
def splitSign : List Char → Bool × List Char
  | '-' :: rest => (true, rest)
  | '+' :: rest => (false, rest)
  | rest => (false, rest)

/-- Reads the exponent that ends a numeral: nothing, or an `e` with a signed number. -/
def readExponent? : List Char → Option Int
  | [] => some 0
  | c :: rest =>
    if c == 'e' || c == 'E' then
      let (negative, digits) := splitSign rest
      if !digits.isEmpty && digits.all Char.isDigit then
        some (if negative then - (valueOf digits : Int) else valueOf digits)
      else none
    else none

/-- Reads digits with an optional point among or around them, and an exponent. -/
def readUnsigned? (negative : Bool) (s : List Char) : Option Decimal :=
  let whole := s.takeWhile Char.isDigit
  let (fraction, rest) :=
    match s.dropWhile Char.isDigit with
    | '.' :: tail => (tail.takeWhile Char.isDigit, tail.dropWhile Char.isDigit)
    | tail => ([], tail)
  if whole.isEmpty && fraction.isEmpty then none
  else
    (readExponent? rest).map fun exponent =>
      ⟨negative, valueOf (whole ++ fraction), exponent - fraction.length⟩

/-- Reads a numeral: an optional sign, digits with an optional point, an optional exponent. -/
def read? (s : List Char) : Option Decimal :=
  let (negative, rest) := splitSign s
  readUnsigned? negative rest

end Decimal

/-! ## Binary numbers -/

/-- The bits of positive infinity: every finite number has smaller bits below its sign. -/
def infinityBits : Nat := 0x7FF0000000000000

/-- A finite binary64 number: its sign, and the exponent field followed by the fraction field as one
number, which is small enough for the exponent field not to be all ones. -/
structure Binary64 where
  negative : Bool
  magnitude : Nat
  finite : magnitude < infinityBits
deriving DecidableEq

namespace Binary64

/-- The 64 bits as a number. -/
def bits (x : Binary64) : Nat :=
  (if x.negative then 0x8000000000000000 else 0) + x.magnitude

/-- The numbers that the fraction field can hold: `2 ^ 52` of them. -/
def fractions : Nat := 0x10000000000000

/-- The absolute value of the number with the given exponent and fraction fields, as a multiple of
`2 ^ -1074`, the smallest positive number. -/
def scaledMagnitude (magnitude : Nat) : Nat :=
  let field := magnitude / fractions
  let fraction := magnitude % fractions
  if field = 0 then fraction else (fractions + fraction) * Nat.pow 2 (field - 1)

/-- The exact value as a multiple of `2 ^ -1074`. -/
def scaled (x : Binary64) : Int :=
  if x.negative then - (scaledMagnitude x.magnitude : Int) else scaledMagnitude x.magnitude

/-- `num / den` rounded to a whole number, a half to the even neighbour. -/
def roundHalfEven (num den : Nat) : Nat :=
  let q := num / den
  let r := num % den
  if 2 * r < den then q
  else if den < 2 * r then q + 1
  else if q % 2 = 0 then q else q + 1

/-- The exponent and fraction fields of the number nearest to `num / den > 0`, as if exponents had
no upper bound. The unit is the smallest power of two, `2 ^ -1074` or above, of which the value
holds less than `2 ^ 53`; its exponent is counted from there and raised once if guessed low. -/
def nearestMagnitude (num den : Nat) : Nat :=
  let guess : Nat := (Nat.log2 num + 1074 - Nat.log2 den) - 53
  let scale := Nat.pow 2 1074
  let unit := if 2 * fractions * den * Nat.pow 2 guess ≤ num * scale then guess + 1 else guess
  unit * fractions + roundHalfEven (num * scale) (den * Nat.pow 2 unit)

/-- The magnitude nearest to `digits · 10 ^ exponent`, or none if it is not finite. Numerals far
outside the range are decided by their length. -/
def magnitudeOf? (digits : Nat) (exponent : Int) : Option Nat :=
  let size : Int := (Nat.toDigits 10 digits).length
  if digits = 0 || exponent + size < -330 then some 0
  else if 310 < exponent + size then none
  else if 0 ≤ exponent then some (nearestMagnitude (digits * Nat.pow 10 exponent.toNat) 1)
  else some (nearestMagnitude digits (Nat.pow 10 (-exponent).toNat))

/-- The finite number nearest to a numeral, ties to even; none if the numeral rounds to infinity. -/
def ofDecimal? (d : Decimal) : Option Binary64 :=
  match magnitudeOf? d.digits d.exponent with
  | some m => if h : m < infinityBits then some ⟨d.negative, m, h⟩ else none
  | none => none

/-- Reads the finite number nearest to a written numeral. -/
def read? (s : List Char) : Option Binary64 :=
  (Decimal.read? s).bind ofDecimal?

/-- Orders numbers by their bits: negative before positive, larger magnitudes outward. A negative
zero comes before a positive one. -/
def compareBits (x y : Binary64) : Ordering :=
  match x.negative, y.negative with
  | true, true => compare y.magnitude x.magnitude
  | true, false => .lt
  | false, true => .gt
  | false, false => compare x.magnitude y.magnitude

end Binary64

end Thesaurus
