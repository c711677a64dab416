/-!
# Decimal numerals and the numbers nearest to them

A decimal numeral has digits, a point among them and an exponent of ten.  Machine
numbers have 53 significant bits, and a numeral stands for the one nearest to it;
of two that are equally near, for the one whose last bit is zero.  All of this is
done with whole numbers, so nothing is lost on the way.
-/

namespace MonkeyLang

/-- The value of a hexadecimal digit. -/
def hexValue? (c : Char) : Option Nat :=
  if c.isDigit then some (c.toNat - '0'.toNat)
  else if 'a' ≤ c && c ≤ 'f' then some (c.toNat - 'a'.toNat + 10)
  else if 'A' ≤ c && c ≤ 'F' then some (c.toNat - 'A'.toNat + 10)
  else none

/-- A digit below the given base. -/
def isDigitOf (base : Nat) (c : Char) : Bool :=
  (hexValue? c).any (· < base)

/-- The number that digits of a base stand for. -/
def numberInBase (base : Nat) (digits : List Char) : Nat :=
  digits.foldl (fun n c => base * n + (hexValue? c).getD 0) 0

/-- The character whose code point hexadecimal digits name. -/
def codePoint? (digits : List Char) : Option Char :=
  if digits.all (isDigitOf 16) then
    let n := numberInBase 16 digits
    if n.isValidChar then some (Char.ofNat n) else none
  else none

/-- Each underscore stands between two digits. -/
def hasGoodUnderscores (isDigit : Char → Bool) : List Char → Bool
  | [] => true
  | ['_'] => false
  | a :: '_' :: b :: rest => isDigit a && isDigit b && hasGoodUnderscores isDigit (b :: rest)
  | a :: rest => a != '_' && hasGoodUnderscores isDigit rest

/-- The text without underscores. -/
def withoutUnderscores (text : List Char) : List Char := text.filter (· != '_')

/-- The text after a sign, and whether the sign is a minus. -/
def unsigned : List Char → Bool × List Char
  | '-' :: rest => (true, rest)
  | '+' :: rest => (false, rest)
  | text => (false, text)

/-- A number with its sign. -/
def signed (negative : Bool) (n : Nat) : Int :=
  if negative then -(n : Int) else n

/-- A decimal numeral: its digits as a whole number, times a power of ten. -/
structure Decimal where
  negative : Bool
  digits : Nat
  exponent : Int
  deriving DecidableEq, Repr

namespace Decimal

/-- The mark before an exponent. -/
def isMark (c : Char) : Bool := c == 'e' || c == 'E'

/-- The exponent that a text with an optional sign stands for. -/
def exponent? (text : List Char) : Option Int :=
  let (negative, digits) := unsigned text
  if digits.isEmpty || !digits.all Char.isDigit then none
  else some (signed negative (numberInBase 10 digits))

/-- The numeral that a text spells: digits with at most one point somewhere, a sign
before and an exponent behind. -/
def read? (text : List Char) : Option Decimal :=
  let (negative, body) := unsigned text
  let (mantissa, tail) := body.span fun c => !isMark c
  let (whole, part) := mantissa.span fun c => c != '.'
  let fraction := part.drop 1
  let digits := whole ++ fraction
  if digits.isEmpty || !digits.all Char.isDigit then none
  else
    (if tail.isEmpty then some 0 else exponent? (tail.drop 1)).map fun exponent =>
      ⟨negative, numberInBase 10 digits, exponent - fraction.length⟩

/-- The whole number nearest to a quotient, the even one of two. -/
def roundedQuotient (n d : Nat) : Nat :=
  let twice := 2 * (n % d)
  if twice < d || (twice == d && n / d % 2 == 0) then n / d else n / d + 1

/-- A quotient divided by a power of two, to the nearest whole number. -/
def scaled (n d : Nat) (shift : Int) : Nat :=
  if 0 ≤ shift then roundedQuotient n (d <<< shift.toNat)
  else roundedQuotient (n <<< (-shift).toNat) d

/-- The number of bits to cut off a quotient so that 53 of them remain, negative
when there are too few. -/
def shift (n d : Nat) : Int :=
  let guess : Int := (n.log2 : Int) - d.log2 - 52
  let small : Bool :=
    if 0 ≤ guess then n < d <<< (52 + guess.toNat)
    else n <<< (-guess).toNat < d <<< 52
  max (-1074) (if small then guess - 1 else guess)

/-- The numeral as a quotient, without its sign. -/
def quotient (x : Decimal) : Nat × Nat :=
  if 0 ≤ x.exponent then (x.digits * Nat.pow 10 x.exponent.toNat, 1)
  else (x.digits, Nat.pow 10 (-x.exponent).toNat)

/-- The size of the nearest machine number as 53 bits and a power of two, none when
it is too large for one. -/
def nearest? (x : Decimal) : Option (Nat × Int) :=
  if x.digits = 0 ∨ x.exponent + x.digits.log2 < -400 then some (0, 0)
  else if 400 < x.exponent then none
  else
    let (n, d) := x.quotient
    let places := shift n d
    let bits := scaled n d places
    if 0 ≤ places ∧ 1 <<< 1024 ≤ bits <<< places.toNat then none else some (bits, places)

/-- The whole part of the nearest machine number. -/
def wholePart? (x : Decimal) : Option Int :=
  x.nearest?.map fun (bits, places) =>
    signed x.negative
      (if 0 ≤ places then bits <<< places.toNat else bits >>> (-places).toNat)

end Decimal
end MonkeyLang
