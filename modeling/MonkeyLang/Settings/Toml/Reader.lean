import MonkeyLang.Decimal
import MonkeyLang.Text.Symbol

/-!
# Reading TOML

A document is a row of statements: headers of tables, headers of further tables of
an array, and entries.  Each starts on a line of its own.  Reading settles only what
can be told from the statement itself; whether statements can stand beside each
other is for the tables to say.
-/

namespace MonkeyLang.Toml

/-!
## Dates and times

A moment is a date, a time of day, or both with a `T` between them and perhaps the
distance from universal time.  All numbers have their full width, days exist in
their month, and seconds may have a fraction.
-/

/-- The number that exactly so many digits at the start of a text stand for, and the
text after them. -/
def digits? (width : Nat) (text : List Char) : Option (Nat × List Char) :=
  let digits := text.take width
  if digits.length = width && digits.all Char.isDigit then
    some (digits.foldl (fun n c => 10 * n + (c.toNat - '0'.toNat)) 0, text.drop width)
  else none

/-- The text after the given character. -/
def after? (c : Char) : List Char → Option (List Char)
  | [] => none
  | d :: rest => if d = c then some rest else none

/-- The number of days in a month of a year. -/
def daysIn (year month : Nat) : Nat :=
  if month = 2 then
    if year % 4 = 0 && (year % 100 ≠ 0 || year % 400 = 0) then 29 else 28
  else if month = 4 || month = 6 || month = 9 || month = 11 then 30
  else 31

/-- The text after a date. -/
def date? (text : List Char) : Option (List Char) := do
  let (year, text) ← digits? 4 text
  let (month, text) ← digits? 2 (← after? '-' text)
  let (day, text) ← digits? 2 (← after? '-' text)
  if 1 ≤ month && month ≤ 12 && 1 ≤ day && day ≤ daysIn year month then some text else none

/-- The text after a fraction of a second, if there is one. -/
def skipFraction : List Char → List Char
  | '.' :: c :: rest => if c.isDigit then rest.dropWhile Char.isDigit else '.' :: c :: rest
  | text => text

/-- The text after a time of day. -/
def clock? (text : List Char) : Option (List Char) := do
  let (hour, text) ← digits? 2 text
  let (minute, text) ← digits? 2 (← after? ':' text)
  let (second, text) ← digits? 2 (← after? ':' text)
  if hour < 24 && minute < 60 && second < 60 then some (skipFraction text) else none

/-- The text after a distance from universal time. -/
def zone? : List Char → Option (List Char)
  | [] => none
  | c :: text =>
    if c = 'Z' then some text
    else if c = '+' || c = '-' then do
      let (hours, text) ← digits? 2 text
      let (minutes, text) ← digits? 2 (← after? ':' text)
      if hours ≤ 24 && minutes ≤ 60 then some text else none
    else none

/-- The letters of a moment in upper case, and the letter that may be a space. -/
def plainLetter : Char → Char
  | 'z' => 'Z'
  | 't' => 'T'
  | ' ' => 'T'
  | c => c

/-- The text spells a moment. -/
def isMoment (text : List Char) : Bool :=
  let text := text.map plainLetter
  match date? text with
  | some [] => true
  | some rest =>
    match (after? 'T' rest).bind clock? with
    | some [] => true
    | some rest => zone? rest = some []
    | none => false
  | none => clock? text = some []

/-!
## Statements

Characters that cannot be seen have to be escaped, except for tabs and the ends of
lines; a return belongs to the newline after it.
-/

/-- The names on the way to a value. -/
abbrev Key := List Text

/-- A value as it is written. -/
inductive Value where
  | string (s : Text)
  | integer (n : Int)
  | float
  | boolean (b : Bool)
  | moment
  | array (elements : List Value)
  | inline (entries : List (Key × Value))

/-- A statement of a document. -/
inductive Statement where
  | table (key : Key)
  /-- One more table of an array of tables. -/
  | tables (key : Key)
  | entry (key : Key) (value : Value)

/-- A blank inside a line. -/
def isBlank (c : Char) : Bool := c == ' ' || c == '\t'

/-- A character that ends a line. -/
def isNewline (c : Char) : Bool := c == '\n' || c == '\r'

/-- The text without blanks at its start. -/
def skipBlanks (text : List Char) : List Char := text.dropWhile isBlank

/-- The text without blanks, ends of lines and comments at its start; a comment may
have begun. -/
def skipGaps (inComment : Bool) : List Char → List Char
  | [] => []
  | c :: rest =>
    if isNewline c then skipGaps false rest
    else if inComment then skipGaps true rest
    else if c = '#' then skipGaps true rest
    else if isBlank c then skipGaps false rest
    else c :: rest

/-- Nothing is left of the line but a comment. -/
def endsLine (text : List Char) : Bool :=
  match skipBlanks text with
  | [] => true
  | c :: _ => isNewline c || c == '#'

/-- Puts a character before what was read. -/
def prepend (c : Char) (read : Option (List Char × List Char)) :
    Option (List Char × List Char) :=
  read.map fun (s, rest) => (c :: s, rest)

/-- The text up to a quote on the same line, and the text after the quote.  A
backslash keeps the next character from being the quote, where it counts. -/
def upToQuote? (quote : Char) (escapes : Bool) : List Char → Option (List Char × List Char)
  | [] => none
  | '\\' :: c :: rest =>
    if escapes then prepend '\\' (prepend c (upToQuote? quote escapes rest))
    else prepend '\\' (if c = quote then some ([], rest) else upToQuote? quote escapes (c :: rest))
  | c :: rest =>
    if c = quote then some ([], rest)
    else if isNewline c then none
    else prepend c (upToQuote? quote escapes rest)
termination_by text => text.length

/-- The text up to three quotes in a row, and the text after them.  The text may end
in one or two quotes of its own; more than five in a row are too many. -/
def upToQuotes? (quote : Char) (escapes : Bool) : List Char → Option (List Char × List Char)
  | [] => none
  | '\\' :: c :: rest =>
    if escapes then prepend '\\' (prepend c (upToQuotes? quote escapes rest))
    else prepend '\\' (upToQuotes? quote escapes (c :: rest))
  | c :: rest =>
    if c = quote then
      let run := (rest.takeWhile (· = quote)).length + 1
      if run < 3 then prepend c (upToQuotes? quote escapes rest)
      else if run ≤ 5 then some (List.replicate (run - 3) quote, rest.drop (run - 1))
      else none
    else prepend c (upToQuotes? quote escapes rest)
termination_by text => text.length

/-- What a backslash and the character after it stand for. -/
def escape? : Char → Option Char
  | 'b' => some '\x08'
  | 't' => some '\t'
  | 'n' => some '\n'
  | 'f' => some '\x0c'
  | 'r' => some '\r'
  | '"' => some '"'
  | '\\' => some '\\'
  | _ => none

/-- The text that a text with escapes stands for. -/
def unescape? : List Char → Option (List Char)
  | [] => some []
  | '\\' :: 'u' :: a :: b :: c :: d :: rest => do
    return (← codePoint? [a, b, c, d]) :: (← unescape? rest)
  | '\\' :: 'U' :: a :: b :: c :: d :: e :: f :: g :: h :: rest => do
    return (← codePoint? [a, b, c, d, e, f, g, h]) :: (← unescape? rest)
  | '\\' :: c :: rest => do return (← escape? c) :: (← unescape? rest)
  | ['\\'] => none
  | c :: rest => do return c :: (← unescape? rest)

/-- The text without a newline right at its start. -/
def withoutFirstNewline : List Char → List Char
  | '\n' :: rest => rest
  | '\r' :: '\n' :: rest => rest
  | text => text

/-- The text without the ends of lines that a backslash hides, and the blank space
around them. -/
def joinedLines : List Char → List Char
  | [] => []
  | '\\' :: '\\' :: rest => '\\' :: '\\' :: joinedLines rest
  | '\\' :: rest =>
    let space := rest.takeWhile fun c => isBlank c || isNewline c
    if space.contains '\n' then joinedLines (rest.drop space.length)
    else '\\' :: joinedLines rest
  | c :: rest => c :: joinedLines rest
termination_by text => text.length

/-- Reads a string on one line after its opening quote. -/
def string? (quote : Char) (text : List Char) : Option (Text × List Char) := do
  let (body, rest) ← upToQuote? quote (quote = '"') text
  let plain ← if quote = '"' then unescape? body else some body
  return (Text.ofChars plain, rest)

/-- Reads a string on several lines after its three opening quotes. -/
def longString? (quote : Char) (text : List Char) : Option (Text × List Char) := do
  let (body, rest) ← upToQuotes? quote (quote = '"') text
  let body := withoutFirstNewline body
  let plain ← if quote = '"' then unescape? (joinedLines body) else some body
  return (Text.ofChars plain, rest)

/-- The characters of a bare name. -/
def isBare (c : Char) : Bool := c.isAlphanum || c == '_' || c == '-'

/-- Reads one name of a key. -/
def name? : List Char → Option (Text × List Char)
  | [] => none
  | c :: rest =>
    if c = '"' || c = '\x27' then string? c rest
    else if isBare c then
      let (name, after) := (c :: rest).span isBare
      some (Text.ofChars name, after)
    else none

/-- Reads the names of a key with dots between them, at most the given number, and
the blanks behind. -/
def key? : Nat → List Char → Option (Key × List Char)
  | 0, _ => none
  | n + 1, text => do
    let (name, rest) ← name? (skipBlanks text)
    match skipBlanks rest with
    | '.' :: more =>
      let (names, rest) ← key? n more
      return (name :: names, rest)
    | rest => return ([name], rest)

/-- Digits with a needless zero in front. -/
def hasNeedlessZero (digits : List Char) : Bool :=
  digits.length > 1 && digits.head? = some '0'

/-- The value of an integer, which has 64 bits. -/
def integer? (n : Int) : Option Value :=
  if -0x8000000000000000 ≤ n ∧ n < 0x8000000000000000 then some (.integer n) else none

/-- Reads the digits of an integer in a base that was named. -/
def basedInteger? (base : Nat) (text : List Char) : Option (Value × List Char) :=
  let (digits, rest) := text.span fun c => isDigitOf base c || c == '_'
  if !digits.isEmpty && hasGoodUnderscores (isDigitOf base) digits then
    (integer? (numberInBase base (withoutUnderscores digits))).map (·, rest)
  else none

/-- The text spells a float: digits before a point, behind it and in an exponent. -/
def isFloat (text : List Char) : Bool :=
  let body := (unsigned text).2
  let whole := body.takeWhile fun c => c != '.' && !Decimal.isMark c
  let fraction? := (body.dropWhile fun c => c != '.').tail?
  !whole.isEmpty && !hasNeedlessZero whole && hasGoodUnderscores Char.isDigit body &&
    fraction?.all (fun fraction => fraction.head?.any Char.isDigit) &&
    ((Decimal.read? (withoutUnderscores text)).bind Decimal.nearest?).isSome

/-- Reads a number in base ten or a moment. -/
def decimal? (text : List Char) : Option (Value × List Char) :=
  let (negative, body) := unsigned text
  let hasSign := body.length < text.length
  let (digits, rest) := body.span fun c => c.isDigit || c == '_'
  if digits.isEmpty || !digits.head?.any Char.isDigit then none
  else
    match rest with
    | c :: _ =>
      if c = '.' || Decimal.isMark c then
        let (tail, after) :=
          rest.span fun c => c.isDigit || "_.+-eE".toList.contains c
        if isFloat (digits ++ tail) then some (.float, after) else none
      else if (c = '-' || c = ':') && !hasSign && !digits.contains '_' then
        let (tail, after) := rest.span fun c => c.isDigit || "-:Tt .Zz+".toList.contains c
        let moment := (((digits ++ tail).reverse).dropWhile isBlank).reverse
        if isMoment moment then some (.moment, after) else none
      else whole negative digits rest
    | [] => whole negative digits rest
where
  /-- The value of an integer in base ten. -/
  whole (negative : Bool) (digits rest : List Char) : Option (Value × List Char) :=
    if hasGoodUnderscores Char.isDigit digits && !hasNeedlessZero digits then
      (integer? (signed negative (numberInBase 10 (withoutUnderscores digits)))).map (·, rest)
    else none

/-- Reads a value that is one word. -/
def word? : List Char → Option (Value × List Char)
  | '0' :: 'x' :: rest => basedInteger? 16 rest
  | '0' :: 'o' :: rest => basedInteger? 8 rest
  | '0' :: 'b' :: rest => basedInteger? 2 rest
  | 't' :: 'r' :: 'u' :: 'e' :: rest => some (.boolean true, rest)
  | 'f' :: 'a' :: 'l' :: 's' :: 'e' :: rest => some (.boolean false, rest)
  | text =>
    match (unsigned text).2 with
    | 'i' :: 'n' :: 'f' :: rest => some (.float, rest)
    | 'n' :: 'a' :: 'n' :: rest => some (.float, rest)
    | _ => decimal? text

mutual

/-- Reads a value, with the given number of steps. -/
def value? : Nat → List Char → Option (Value × List Char)
  | 0, _ => none
  | n + 1, text =>
    match skipBlanks text with
    | '"' :: '"' :: '"' :: rest => (longString? '"' rest).map fun (s, after) => (.string s, after)
    | '"' :: rest => (string? '"' rest).map fun (s, after) => (.string s, after)
    | '\x27' :: '\x27' :: '\x27' :: rest =>
      (longString? '\x27' rest).map fun (s, after) => (.string s, after)
    | '\x27' :: rest => (string? '\x27' rest).map fun (s, after) => (.string s, after)
    | '[' :: rest => (elements? n rest).map fun (vs, after) => (.array vs, after)
    | '\x7b' :: rest =>
      match skipBlanks rest with
      | '\x7d' :: after => some (.inline [], after)
      | rest => (pairs? n rest).map fun (entries, after) => (.inline entries, after)
    | text => word? text

/-- Reads the elements of an array up to its end. -/
def elements? : Nat → List Char → Option (List Value × List Char)
  | 0, _ => none
  | n + 1, text =>
    match skipGaps false text with
    | ']' :: rest => some ([], rest)
    | text => do
      let (value, rest) ← value? n text
      match skipGaps false rest with
      | ',' :: more =>
        let (values, rest) ← elements? n more
        return (value :: values, rest)
      | ']' :: more => return ([value], more)
      | _ => none

/-- Reads the entries of a table on one line up to its end, at least one. -/
def pairs? : Nat → List Char → Option (List (Key × Value) × List Char)
  | 0, _ => none
  | n + 1, text => do
    let (key, rest) ← key? text.length text
    let (value, rest) ← value? n (← after? '=' rest)
    match skipBlanks rest with
    | ',' :: more =>
      let (entries, rest) ← pairs? n more
      return ((key, value) :: entries, rest)
    | '\x7d' :: more => return ([(key, value)], more)
    | _ => none

end

/-- Reads a statement. -/
def statement? (text : List Char) : Option (Statement × List Char) :=
  match text with
  | '[' :: '[' :: rest => do
    let (key, rest) ← key? rest.length rest
    return (.tables key, ← after? ']' (← after? ']' rest))
  | '[' :: rest => do
    let (key, rest) ← key? rest.length rest
    return (.table key, ← after? ']' rest)
  | text => do
    let (key, rest) ← key? text.length text
    let (value, rest) ← value? (text.length + 1) (← after? '=' rest)
    return (.entry key value, rest)

/-- Reads the statements of a document, at most the given number. -/
def statements? : Nat → List Char → Option (List Statement)
  | n, text =>
    match skipGaps false text, n with
    | [], _ => some []
    | _, 0 => none
    | text, n + 1 => do
      let (statement, rest) ← statement? text
      if endsLine rest then return statement :: (← statements? n rest) else none

/-- All characters can stand in a document. -/
def isClean : List Char → Bool
  | [] => true
  | '\r' :: rest => rest.head? = some '\n' && isClean rest
  | c :: rest => (c.toNat ≥ 0x20 || c = '\t' || c = '\n') && c.toNat ≠ 0x7F && isClean rest

/-- The bytes that may mark the start of a document. -/
def withoutMark : Text → Text
  | 0xFF :: 0xFE :: rest => rest
  | 0xFE :: 0xFF :: rest => rest
  | 0xEF :: 0xBB :: 0xBF :: rest => rest
  | text => text

/-- The statements of a document. -/
def document? (text : Text) : Option (List Statement) := do
  let chars ← (withoutMark text).chars?
  if isClean chars then statements? (chars.length + 1) chars else none

end MonkeyLang.Toml
