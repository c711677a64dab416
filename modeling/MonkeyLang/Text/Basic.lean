/-!
# Byte text

Sources, string values and messages are sequences of bytes that need not spell
valid characters: columns, lengths and carets all count bytes.  This file holds
the type of such texts with the few operations everything else is built from:
constants, lines, decimal numerals and the lexicographic order on bytes.
-/

namespace MonkeyLang

/-- A text is a list of bytes. -/
abbrev Text := List UInt8

namespace Text

/-- The bytes of a string in UTF-8. -/
def ofString (s : String) : Text :=
  s.toList.flatMap String.utf8EncodeChar

instance : Coe String Text := ⟨ofString⟩

/-- The byte that ends a line. -/
def newline : UInt8 := '\n'.toUInt8

/-- The pieces of a text between its newlines.  There is always at least one. -/
def lines : Text → List Text
  | [] => [[]]
  | b :: rest =>
    if b = newline then
      [] :: lines rest
    else
      match lines rest with
      | [] => [[b]]
      | line :: more => (b :: line) :: more

/-- Texts in a row, with a separator between neighbours. -/
def joined (separator : Text) (texts : List Text) : Text :=
  List.intercalate separator texts

/-- Every occurrence of one byte replaced by a text. -/
def replaceByte (byte : UInt8) (replacement : Text) (text : Text) : Text :=
  text.flatMap fun b => if b = byte then replacement else [b]

/-- The first text is an initial part of the second one. -/
def startsWith (text start : Text) : Bool :=
  start.isPrefixOf text

/-- Order by the first byte that differs, a shorter text before its extensions. -/
def before : Text → Text → Bool
  | [], _ => true
  | _ :: _, [] => false
  | a :: as, b :: bs => if a = b then before as bs else decide (a < b)

/-- The digit of a number below ten. -/
def digit (n : Nat) : UInt8 :=
  UInt8.ofNat ('0'.toNat + n)

/-- The decimal numeral of a natural number. -/
def ofNat (n : Nat) : Text :=
  if n < 10 then [digit n] else ofNat (n / 10) ++ [digit (n % 10)]
termination_by n

/-- The decimal numeral of an integer, with a minus sign below zero. -/
def ofInt : Int → Text
  | .ofNat n => ofNat n
  | .negSucc n => '-'.toUInt8 :: ofNat (n + 1)

/-- The decimal digits. -/
def isDigit (b : UInt8) : Bool :=
  '0'.toUInt8 ≤ b && b ≤ '9'.toUInt8

/-- The letters a name may hold, the underscore among them. -/
def isLetter (b : UInt8) : Bool :=
  'a'.toUInt8 ≤ b && b ≤ 'z'.toUInt8 || 'A'.toUInt8 ≤ b && b ≤ 'Z'.toUInt8 || b == '_'.toUInt8

/-- The number that decimal digits stand for. -/
def digitsValue (digits : Text) : Nat :=
  digits.foldl (fun n b => 10 * n + (b.toNat - '0'.toNat)) 0

/-- The number a non-empty run of digits stands for. -/
def toNat? (text : Text) : Option Nat :=
  if !text.isEmpty && text.all isDigit then some (digitsValue text) else none

/-- The integer that digits with an optional sign stand for. -/
def toInt? : Text → Option Int
  | [] => none
  | b :: rest =>
    if b = '-'.toUInt8 then (toNat? rest).map fun n => -(n : Int)
    else if b = '+'.toUInt8 then (toNat? rest).map Int.ofNat
    else (toNat? (b :: rest)).map Int.ofNat

/-- The 64-bit signed integer a numeral stands for, if it is in range. -/
def toInt64? (text : Text) : Option Int64 :=
  (toInt? text).bind fun n =>
    if -0x8000000000000000 ≤ n ∧ n < 0x8000000000000000 then some (Int64.ofInt n) else none

end Text
end MonkeyLang
