import MonkeyLang.Settings.Basic
import MonkeyLang.Settings.Yaml.Node

/-!
# What YAML scalars stand for

A plain scalar has no type of its own.  It is any text, and also nothing, a truth
value or a number when it is written like one; a tag may ask for one of these.  A
quoted scalar is a text.  A setting that is a truth value also takes some words of
older documents, quoted or not.
-/

namespace MonkeyLang.Yaml

/-- What a scalar stands for. -/
inductive Meaning where
  | nothing
  | truth (b : Bool)
  /-- A whole number, which may be too large for a setting. -/
  | whole (n : Int)
  /-- A fraction, and the whole number that a setting takes from it, if any. -/
  | fraction (n? : Option Int)
  | text
  deriving DecidableEq, Repr

/-- The least whole number of 64 bits. -/
def leastWhole : Int := -0x8000000000000000

/-- The whole number that a setting takes from one that a fraction was cut to.  One
too small counts as the least. -/
def cutWhole? (n : Int) : Option Int :=
  if 0x8000000000000000 < n then none
  else if leastWhole ≤ n ∧ n < 0x8000000000000000 then some n
  else some leastWhole

/-- The meaning of a decimal numeral, unless it is too large. -/
def ofDecimal? (text : List Char) : Option Meaning :=
  (Decimal.read? text).bind fun x => x.wholePart?.map fun n => .fraction (cutWhole? n)

/-- The number that digits stand for, in the base that their start names. -/
def basedNumber? (text : List Char) : Option Nat :=
  let based (base : Nat) (digits : List Char) : Option Nat :=
    if digits.all (isDigitOf base) then some (numberInBase base digits) else none
  match text with
  | [] => none
  | '0' :: c :: d :: rest =>
    if c = 'x' || c = 'X' then based 16 (d :: rest)
    else if c = 'o' || c = 'O' then based 8 (d :: rest)
    else if c = 'b' || c = 'B' then based 2 (d :: rest)
    else based 8 (c :: d :: rest)
  | '0' :: rest => based 8 rest
  | text => based 10 text

/-- The meaning of a numeral for a whole number.  With a sign it has to have 64 bits
with that sign, without one 64 bits. -/
def ofWhole? (text : List Char) : Option Meaning :=
  let (negative, digits) := unsigned text
  (basedNumber? digits).bind fun n =>
    let limit := if digits.length < text.length then 0x8000000000000000 else 0x10000000000000000
    let fits := n < limit || (negative && n = limit)
    if fits then some (.whole (signed negative n)) else none

/-- The meaning of a numeral whose sign stands behind the mark of its base. -/
def ofInnerSign? (text : List Char) : Option Meaning :=
  let inner (base : Nat) (text : List Char) : Option Meaning :=
    let (negative, digits) := unsigned text
    let n := numberInBase base digits
    let limit := 0x8000000000000000
    if !digits.isEmpty && digits.all (isDigitOf base) && (n < limit || (negative && n = limit))
    then some (.whole (signed negative n)) else none
  match text with
  | '0' :: 'b' :: rest => inner 2 rest
  | '0' :: 'o' :: rest => inner 8 rest
  | _ => none

/-- The words with a meaning of their own. -/
def wordMeaning? (text : List Char) : Option Meaning :=
  let among (words : List String) : Bool := words.any fun word => word.toList = text
  if among ["", "~", "null", "Null", "NULL"] then some .nothing
  else if among ["true", "True", "TRUE"] then some (.truth true)
  else if among ["false", "False", "FALSE"] then some (.truth false)
  else if among [".nan", ".NaN", ".NAN", ".inf", ".Inf", ".INF", "+.inf", "+.Inf", "+.INF"] then
    some (.fraction none)
  else if among ["-.inf", "-.Inf", "-.INF"] then some (.fraction (some leastWhole))
  else none

/-- The meaning of a plain scalar without a tag. -/
def plainMeaning (text : List Char) : Meaning :=
  match wordMeaning? text with
  | some meaning => meaning
  | none =>
    let bare := withoutUnderscores text
    let found? : Option Meaning :=
      match text with
      | [] => none
      | c :: _ =>
        if c = '.' then if hasGoodUnderscores Char.isDigit text then ofDecimal? bare else none
        else if c.isDigit || c = '+' || c = '-' then
          (ofWhole? bare).or ((ofDecimal? bare).or (ofInnerSign? bare))
        else none
    found?.getD .text

/-- The meaning of a scalar with its tag.  It fails when the scalar is not of the kind
that the tag asks for. -/
def meaning? (text : List Char) (isPlain : Bool) (tag : List Char) : Option Meaning :=
  let meaning := plainMeaning text
  let asks (name : String) : Bool := tag = name.toList
  if tag.isEmpty then some (if isPlain then meaning else .text)
  else if asks "!!str" then some .text
  else
    match meaning with
    | .nothing => if asks "!!null" then some meaning else none
    | .truth _ => if asks "!!bool" then some meaning else none
    | .whole n =>
      if asks "!!int" then some meaning
      else if asks "!!float" && n < 0x8000000000000000 then ofDecimal? (toString n).toList
      else none
    | .fraction _ => if asks "!!float" then some meaning else none
    | .text => none

/-- The truth value that a word of older documents stands for. -/
def wordTruth? (text : List Char) : Option Bool :=
  let among (words : List String) : Bool := words.any fun word => word.toList = text
  if among ["y", "Y", "yes", "Yes", "YES", "on", "On", "ON"] then some true
  else if among ["n", "N", "no", "No", "NO", "off", "Off", "OFF"] then some false
  else none

/-- A scalar as each type of setting, none when it stands for nothing.  It fails like
the meaning does. -/
def scalar? (text : List Char) (isPlain : Bool) (tag : List Char) : Option (Option Scalar) :=
  (meaning? text isPlain tag).map fun meaning =>
    let content := Text.ofChars text
    match meaning with
    | .nothing => none
    | .truth b => some ⟨some content, some b, none⟩
    | .whole n => some ⟨some content, none, if n < 0x8000000000000000 then some n else none⟩
    | .fraction n? => some ⟨some content, none, n?⟩
    | .text => some ⟨some content, wordTruth? text, none⟩

end MonkeyLang.Yaml
